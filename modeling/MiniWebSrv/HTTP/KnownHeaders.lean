import MiniWebSrv.HTTP.Header
import MiniWebSrv.Lib.Memory

/-! # Known headers

The constructor of `Header` over the memory which the line lies in. The three loops of
`ExtractHeader` have one cursor, and each of them may stop at the end of the line. The memory in
the end is the line which `extractHeader` gives, stored in place.
-/

namespace MiniWebSrv.HTTP.Header

variable {B : Type} [DecidableEq B]

/-- What a loop leaves: `LineBegin`, and how many bytes there are up to `LineEnd`. -/
structure LineCursor (B : Type) where
  mem : Mem B Byte
  lineBegin : Ptr B
  left : Nat

/-- The first loop of `ExtractHeader`. -/
def lowerName (m : Mem B Byte) (lineBegin : Ptr B) : Nat → LineCursor B
  | 0 => ⟨m, lineBegin, 0⟩
  | left + 1 =>
      let currVal := m lineBegin.block lineBegin.off
      if ch 'A' ≤ currVal ∧ currVal ≤ ch 'Z' then
        lowerName (m.write lineBegin [currVal - ch 'A' + ch 'a']) (lineBegin.add 1) left
      else if currVal = ch ':' then
        ⟨m.write lineBegin [0], lineBegin.add 1, left⟩
      else
        lowerName m (lineBegin.add 1) left

/-- The second loop, with `*OutValue`. -/
def findValue (m : Mem B Byte) (lineBegin : Ptr B) : Nat → Option (Ptr B) × LineCursor B
  | 0 => (none, ⟨m, lineBegin, 0⟩)
  | left + 1 =>
      if m lineBegin.block lineBegin.off ≠ ch ' ' then
        (some lineBegin, ⟨m, lineBegin, left + 1⟩)
      else
        findValue m (lineBegin.add 1) left

/-- The third loop, with the result of the function. -/
def cutValue (m : Mem B Byte) (lineBegin : Ptr B) : Nat → Option (Ptr B) × Mem B Byte
  | 0 => (none, m)
  | left + 1 =>
      if m lineBegin.block lineBegin.off = cr then
        (some (lineBegin.add 1), m.write lineBegin [0])
      else
        cutValue m (lineBegin.add 1) left

/-- `ExtractHeader`: its result, the two pointers it stores, and the memory. -/
structure ExtractedAt (B : Type) where
  mem : Mem B Byte
  name : Ptr B
  value : Option (Ptr B)
  result : Option (Ptr B)

def extractHeaderAt (m : Mem B Byte) (lineBegin : Ptr B) (length : Nat) : ExtractedAt B :=
  let named := lowerName m lineBegin length
  let found := findValue named.mem named.lineBegin named.left
  let cut := cutValue found.2.mem found.2.lineBegin found.2.left
  ⟨cut.2, lineBegin, found.1, cut.1⟩

/-- A header which its constructor has filled in. -/
structure Constructed (B : Type) where
  mem : Mem B Byte
  name : Option (Ptr B)
  value : Option (Ptr B)
  intName : HeaderName

/-- `Header(LineBegin, LineEnd)`. The name is looked up only behind a CR of the line, and the NUL
    in the place of that CR ends it at the latest. -/
def construct (m : Mem B Byte) (lineBegin : Ptr B) (length : Nat) : Constructed B :=
  let e := extractHeaderAt m lineBegin length
  let intName :=
    if e.result.isSome then parseHeader (cString (e.mem.read e.name length)) else .unknown
  ⟨e.mem, some e.name, e.value, intName⟩

/-! ## The loops, in terms of the line -/

variable (m : Mem B Byte) (p : Ptr B)

theorem write_one (n : Nat) (c : Byte) :
    (m.write p [c]).read (p.add 1) n = m.read (p.add 1) n :=
  Mem.read_behind m p [c] n

theorem write_cons (c : Byte) (rest : List Byte) :
    (m.write p [c]).write (p.add 1) rest = m.write p (c :: rest) :=
  Mem.write_append m p [c] rest

/-- A byte which is left alone might have been stored. -/
theorem write_same : m.write p [m p.block p.off] = m :=
  Mem.write_read_self m p 1

theorem lowerName_eq (n : Nat) :
    lowerName m p n = ⟨m.write p (extractName (m.read p n)).1,
      p.add (extractName (m.read p n)).1.length, (extractName (m.read p n)).2.length⟩ := by
  induction n generalizing m p with
  | zero => simp only [lowerName, Mem.read, extractName, Mem.write_nil, List.length_nil,
      Ptr.add_zero]
  | succ n ih =>
      simp only [lowerName, Mem.read, extractName]
      by_cases upper : ch 'A' ≤ m p.block p.off ∧ m p.block p.off ≤ ch 'Z'
      · have letter : m p.block p.off ≠ ch ':' := by
          intro colon
          rw [colon] at upper
          exact absurd upper (by decide)
        rw [if_pos upper, if_neg letter, ih, write_one, write_cons, Ptr.add_add, Nat.add_comm 1]
        simp only [lower, if_pos upper, List.length_cons]
      · rw [if_neg upper]
        by_cases colon : m p.block p.off = ch ':'
        · rw [if_pos colon, if_pos colon]
          simp only [List.length_singleton, Mem.read_length]
        · rw [if_neg colon, if_neg colon, ih, Ptr.add_add, Nat.add_comm 1]
          have kept : m.write p (m p.block p.off :: (extractName (m.read (p.add 1) n)).1) =
              m.write (p.add 1) (extractName (m.read (p.add 1) n)).1 := by
            rw [← write_cons, write_same]
          simp only [lower, if_neg upper, List.length_cons, kept]

omit [DecidableEq B] in
theorem findValue_eq (n : Nat) :
    findValue m p n =
      (if (m.read p n).dropWhile (· = ch ' ') = [] then none
        else some (p.add ((m.read p n).takeWhile (· = ch ' ')).length),
      ⟨m, p.add ((m.read p n).takeWhile (· = ch ' ')).length,
        ((m.read p n).dropWhile (· = ch ' ')).length⟩) := by
  induction n generalizing p with
  | zero => rfl
  | succ n ih =>
      simp only [findValue, Mem.read, List.takeWhile_cons, List.dropWhile_cons]
      by_cases space : m p.block p.off = ch ' '
      · rw [if_neg (not_not_intro space), ih, if_pos (decide_eq_true space),
          if_pos (decide_eq_true space), Ptr.add_add, List.length_cons, Nat.add_comm 1]
      · have stop : ¬ decide (m p.block p.off = ch ' ') = true := by simpa using space
        rw [if_pos space, if_neg stop, if_neg stop, if_neg (List.cons_ne_nil _ _)]
        simp only [List.length_nil, Ptr.add_zero, List.length_cons, Mem.read_length]

theorem cutValue_eq (n : Nat) :
    (cutValue m p n).1.isSome = (endValue (m.read p n)).isSome ∧
      (cutValue m p n).2 = m.write p ((endValue (m.read p n)).getD (m.read p n)) := by
  induction n generalizing p with
  | zero => exact ⟨rfl, (Mem.write_nil m p).symm⟩
  | succ n ih =>
      simp only [cutValue, Mem.read, endValue]
      by_cases carriage : m p.block p.off = cr
      · have rest : m.write p (0 :: m.read (p.add 1) n) = m.write p [0] := by
          rw [← write_cons]
          have kept := Mem.write_read_self (m.write p [0]) (p.add 1) n
          rwa [write_one] at kept
        simp only [if_pos carriage, Option.isSome_some, Option.getD_some, rest, and_self]
      · obtain ⟨found, mem⟩ := ih (p.add 1)
        simp only [if_neg carriage, Option.isSome_map, found, mem, true_and]
        have kept (rest : List Byte) :
            m.write p (m p.block p.off :: rest) = m.write (p.add 1) rest := by
          rw [← write_cons, write_same]
        cases endValue (m.read (p.add 1) n) with
        | none => exact (kept _).symm
        | some ended => exact (kept ended).symm

theorem extractName_rest (line : List Byte) :
    line.drop (extractName line).1.length = (extractName line).2 := by
  fun_induction extractName line with
  | case1 => rfl
  | case2 rest => rfl
  | case3 c rest other ih => exact ih

theorem read_rest (n : Nat) :
    (m.write p (extractName (m.read p n)).1).read (p.add (extractName (m.read p n)).1.length)
      (extractName (m.read p n)).2.length = (extractName (m.read p n)).2 := by
  have whole := extractName_length (m.read p n)
  rw [Mem.read_length] at whole
  have rest := extractName_rest (m.read p n)
  rw [Mem.drop_read _ _ (by omega)] at rest
  rw [Mem.read_behind]
  rwa [show n - (extractName (m.read p n)).1.length = (extractName (m.read p n)).2.length by
    omega] at rest

theorem extractHeaderAt_eq (n : Nat) :
    (extractHeaderAt m p n).mem = m.write p (extractHeader (m.read p n)).line ∧
      (extractHeaderAt m p n).value = (extractHeader (m.read p n)).value.map p.add ∧
      (extractHeaderAt m p n).result.isSome = (extractHeader (m.read p n)).complete := by
  have behind := read_rest m p n
  simp only [extractHeaderAt, lowerName_eq, findValue_eq, behind, extractHeader]
  generalize (extractName (m.read p n)).1 = name at behind ⊢
  generalize (extractName (m.read p n)).2 = rest at behind ⊢
  obtain ⟨spaces, spaces_⟩ : ∃ spaces, rest.takeWhile (· = ch ' ') = spaces := ⟨_, rfl⟩
  obtain ⟨value, value_⟩ : ∃ value, rest.dropWhile (· = ch ' ') = value := ⟨_, rfl⟩
  have parts : rest = spaces ++ value := by
    rw [← spaces_, ← value_, List.takeWhile_append_dropWhile]
  simp only [spaces_, value_]
  obtain ⟨front, back⟩ := Mem.read_parts (behind.trans parts)
  obtain ⟨complete, mem⟩ := cutValue_eq (m.write p name) ((p.add name.length).add spaces.length)
    value.length
  rw [back] at complete mem
  -- The spaces are in the memory already.
  have kept : (m.write p name).write (p.add name.length) spaces = m.write p name := by
    have same := Mem.write_read_self (m.write p name) (p.add name.length) spaces.length
    rwa [front] at same
  have stored (ended : List Byte) :
      (m.write p name).write ((p.add name.length).add spaces.length) ended =
        m.write p (name ++ spaces ++ ended) := by
    rw [← kept, Mem.write_append, Mem.write_append, List.append_assoc]
  rw [mem, complete]
  rcases value with _ | ⟨c, tail⟩
  · refine ⟨?_, rfl, rfl⟩
    rw [stored]
    simp only [endValue, Option.getD_none, List.append_nil]
  · rw [if_neg (List.cons_ne_nil c tail)]
    cases endValue (c :: tail) with
    | none => exact ⟨stored _, by rw [Ptr.add_add]; rfl, rfl⟩
    | some ended => exact ⟨stored _, by rw [Ptr.add_add]; rfl, rfl⟩

/-- The constructor gives what the connection takes a header line for. -/
theorem construct_eq (n : Nat) :
    construct m p n = ⟨m.write p (extractHeader (m.read p n)).line, some p,
      (extractHeader (m.read p n)).value.map p.add, lineName (m.read p n)⟩ := by
  obtain ⟨mem, value, complete⟩ := extractHeaderAt_eq m p n
  have name : (extractHeaderAt m p n).name = p := rfl
  have whole : (m.write p (extractHeader (m.read p n)).line).read p n =
      (extractHeader (m.read p n)).line := by
    have self := Mem.read_write_self m p (extractHeader (m.read p n)).line
    rwa [extractHeader_length, Mem.read_length] at self
  simp only [construct, name, mem, value, complete, whole, lineName]

/-! ## What a known header is made of -/

theorem extractName_split {line : List Byte} (more : (extractName line).2 ≠ []) :
    ∃ name, ch ':' ∉ name ∧ line = name ++ ch ':' :: (extractName line).2 ∧
      (extractName line).1 = name.map lower ++ [0] := by
  fun_induction extractName line with
  | case1 => exact absurd rfl more
  | case2 rest => exact ⟨[], List.not_mem_nil, rfl, rfl⟩
  | case3 c rest other ih =>
      obtain ⟨name, noColon, whole, stored⟩ := ih more
      refine ⟨c :: name, ?_, ?_, ?_⟩
      · rw [List.mem_cons, not_or]
        exact ⟨Ne.symm other, noColon⟩
      · rw [List.cons_append, ← whole]
      · rw [stored, List.map_cons, List.cons_append]

theorem endValue_split {value ended : List Byte} (found : endValue value = some ended) :
    ∃ front behind, cr ∉ front ∧ value = front ++ cr :: behind ∧ ended = front ++ 0 :: behind := by
  induction value generalizing ended with
  | nil => cases found
  | cons c rest ih =>
      simp only [endValue] at found
      split at found
      · rename_i carriage
        obtain rfl := Option.some.inj found
        exact ⟨[], rest, List.not_mem_nil, by rw [carriage]; rfl, rfl⟩
      · rename_i other
        obtain ⟨tail, inner, rfl⟩ := Option.map_eq_some_iff.mp found
        obtain ⟨front, behind, noCR, rfl, rfl⟩ := ih inner
        refine ⟨c :: front, behind, ?_, rfl, rfl⟩
        rw [List.mem_cons, not_or]
        exact ⟨Ne.symm other, noCR⟩

/-- A known header has a name, a colon, spaces, a value and a CR. -/
theorem known_split {line : List Byte} (known : lineName line ≠ .unknown) :
    ∃ name spaces front behind, ch ':' ∉ name ∧ (∀ c ∈ spaces, c = ch ' ') ∧ cr ∉ front ∧
      (∀ c ∈ (front ++ [cr]).head?, c ≠ ch ' ') ∧
      line = name ++ ch ':' :: (spaces ++ (front ++ cr :: behind)) ∧
      extractHeader line = ⟨name.map lower ++ 0 :: (spaces ++ (front ++ 0 :: behind)),
        some (name.length + 1 + spaces.length), true⟩ := by
  have complete : (extractHeader line).complete = true := by
    by_contra incomplete
    exact known (by simp only [lineName, incomplete, Bool.false_eq_true, if_false])
  obtain ⟨rest, rest_⟩ : ∃ rest, (extractName line).2 = rest := ⟨_, rfl⟩
  have parts := List.takeWhile_append_dropWhile (p := (· = ch ' ')) (l := rest)
  have spaces : ∀ c ∈ rest.takeWhile (· = ch ' '), c = ch ' ' :=
    fun c inside => by simpa only [decide_eq_true_eq] using List.mem_takeWhile_imp inside
  have stop := List.head?_dropWhile_not (· = ch ' ') rest
  simp only [extractHeader, rest_] at complete ⊢
  generalize rest.takeWhile (· = ch ' ') = spaces_ at parts spaces complete ⊢
  generalize rest.dropWhile (· = ch ' ') = value at parts stop complete ⊢
  rcases value with _ | ⟨c, tail⟩
  · cases complete
  cases found : endValue (c :: tail) with
  | none => rw [found] at complete; cases complete
  | some ended =>
      obtain ⟨front, behind, noCR, whole, stored⟩ := endValue_split found
      have more : (extractName line).2 ≠ [] := by
        rw [rest_, ← parts]
        exact List.append_ne_nil_of_right_ne_nil _ (List.cons_ne_nil c tail)
      obtain ⟨name, noColon, whole_, stored_⟩ := extractName_split more
      refine ⟨name, spaces_, front, behind, noColon, spaces, noCR, ?_, ?_, ?_⟩
      · intro d head space
        have first : (c :: tail).head? = some d := by
          rw [whole, List.append_cons]
          cases front with
          | nil => exact head
          | cons b front => exact head
        rw [first] at stop
        exact of_decide_eq_false stop space
      · rw [← whole, parts, ← rest_]
        exact whole_
      · simp only [stored_, stored, List.length_append, List.length_map,
          List.length_singleton, List.append_assoc, List.cons_append, List.nil_append]

/-! ## Terminated strings -/

/-- The byte at an offset from `p`. -/
def byteAt (m : Mem B Byte) (p : Ptr B) (offset : Nat) : Byte := m p.block (p.off + offset)

/-- The two strings of a header in a line: the offsets of the colon, of the value and of the CR,
    and what the constructor has done to the memory. -/
structure TerminatedStrings (m : Mem B Byte) (lineBegin : Ptr B) (length : Nat)
    (h : Constructed B) (colon value last : Nat) : Prop where
  name : h.name = some lineBegin
  firstColon : byteAt m lineBegin colon = ch ':' ∧ ∀ i < colon, byteAt m lineBegin i ≠ ch ':'
  nameEnd : byteAt h.mem lineBegin colon = 0
  value_ : h.value = some (lineBegin.add value)
  behindColon : colon < value ∧ ∀ i, colon < i → i < value → byteAt m lineBegin i = ch ' '
  noSpace : byteAt m lineBegin value ≠ ch ' '
  firstCR : value ≤ last ∧ byteAt m lineBegin last = cr ∧
    ∀ i, value ≤ i → i < last → byteAt m lineBegin i ≠ cr
  valueEnd : byteAt h.mem lineBegin last = 0
  inside : last < length
  others : ∀ q : Ptr B, ¬ (Region.mk lineBegin length).Covers q →
    h.mem q.block q.off = m q.block q.off

omit [DecidableEq B] in
theorem byteAt_read {m : Mem B Byte} {p : Ptr B} {n i : Nat} {stored : List Byte} {c : Byte}
    (whole : m.read p n = stored) (there : stored[i]? = some c) : byteAt m p i = c := by
  obtain ⟨inside, same⟩ := List.getElem?_eq_some_iff.mp there
  subst whole
  rwa [Mem.read_getElem] at same

theorem getElem?_at {left right : List Byte} {c : Byte} {i : Nat} (place : left.length = i) :
    (left ++ c :: right)[i]? = some c := by
  subst place
  rw [List.getElem?_append_right (Nat.le_refl _), Nat.sub_self, List.getElem?_cons_zero]

/-- The bytes of a part of the line. -/
theorem getElem?_part (left part right : List Byte) (i : Nat) (above : left.length ≤ i)
    (below : i < left.length + part.length) :
    ∃ c ∈ part, (left ++ (part ++ right))[i]? = some c := by
  have inside : i - left.length < part.length := by omega
  refine ⟨part[i - left.length], List.getElem_mem inside, ?_⟩
  rw [List.getElem?_append_right above, List.getElem?_append_left inside,
    List.getElem?_eq_getElem inside]

/-- Whatever the bytes of the line are, the constructor leaves the others alone. -/
theorem construct_others {n : Nat} {q : Ptr B} (outside : ¬ (Region.mk p n).Covers q) :
    (construct m p n).mem q.block q.off = m q.block q.off := by
  rw [construct_eq]
  simp only [Mem.write]
  split
  · rename_i hit
    rw [List.getElem?_eq_none, Option.getD_none]
    rw [extractHeader_length, Mem.read_length]
    by_contra inside
    have below : q.off < p.off + n := by omega
    exact outside ⟨hit.1, hit.2, below⟩
  · rfl

theorem known_terminated (m : Mem B Byte) (lineBegin : Ptr B) (length : Nat)
    (known : (construct m lineBegin length).intName ≠ .unknown) :
    ∃ colon value last, TerminatedStrings m lineBegin length (construct m lineBegin length)
      colon value last := by
  have built := construct_eq m lineBegin length
  rw [built] at known
  obtain ⟨name, spaces, front, behind, noColon, spaces_, noCR, noSpace, whole, stored⟩ :=
    known_split known
  have after : (construct m lineBegin length).mem.read lineBegin length =
      (extractHeader (m.read lineBegin length)).line := by
    have self := Mem.read_write_self m lineBegin (extractHeader (m.read lineBegin length)).line
    rw [extractHeader_length, Mem.read_length] at self
    rw [built]
    exact self
  rw [stored] at after
  have count := congrArg List.length whole
  rw [Mem.read_length] at count
  simp only [List.length_append, List.length_cons] at count
  -- The line with the value in front, and what is stored of it.
  have split_ : m.read lineBegin length =
      (name ++ ch ':' :: spaces) ++ (front ++ cr :: behind) := by
    rw [whole, List.append_assoc, List.cons_append]
  have after_ : (construct m lineBegin length).mem.read lineBegin length =
      (name.map lower ++ 0 :: spaces ++ front) ++ 0 :: behind := by
    rw [after]
    simp only [List.append_assoc, List.cons_append]
  have value : (name ++ ch ':' :: spaces).length = name.length + 1 + spaces.length := by
    rw [List.length_append, List.length_cons]
    omega
  refine ⟨name.length, name.length + 1 + spaces.length,
    name.length + 1 + spaces.length + front.length, ?_⟩
  exact {
    name := by rw [built]
    firstColon := by
      refine ⟨byteAt_read whole (getElem?_at rfl), ?_⟩
      intro i before colon
      obtain ⟨c, inside, there⟩ := getElem?_part [] name
        (ch ':' :: (spaces ++ (front ++ cr :: behind))) i (Nat.zero_le i) (by simpa using before)
      rw [byteAt_read whole there] at colon
      exact noColon (colon ▸ inside)
    nameEnd := byteAt_read after (getElem?_at (List.length_map lower))
    value_ := by
      rw [built]
      simp only [stored, Option.map_some]
    behindColon := by
      refine ⟨by omega, ?_⟩
      intro i above below
      have split' : m.read lineBegin length =
          (name ++ [ch ':']) ++ (spaces ++ (front ++ cr :: behind)) := by
        rw [whole, List.append_assoc, List.singleton_append]
      obtain ⟨c, inside, there⟩ := getElem?_part (name ++ [ch ':']) spaces
        (front ++ cr :: behind) i (by rw [List.length_append]; exact above)
        (by rw [List.length_append]; exact below)
      rw [byteAt_read split' there]
      exact spaces_ c inside
    noSpace := by
      obtain ⟨c, rest, first⟩ : ∃ c rest, front ++ cr :: behind = c :: rest ∧
          c ∈ (front ++ [cr]).head? := by
        cases front with
        | nil => exact ⟨cr, behind, rfl, rfl⟩
        | cons c front => exact ⟨c, front ++ cr :: behind, rfl, rfl⟩
      rw [first.1] at split_
      rw [byteAt_read split_ (getElem?_at value)]
      exact noSpace c first.2
    firstCR := by
      refine ⟨Nat.le_add_right _ _, ?_, ?_⟩
      · rw [← List.append_assoc] at split_
        exact byteAt_read split_ (getElem?_at (by rw [List.length_append, value]))
      · intro i above below carriage
        obtain ⟨c, inside, there⟩ := getElem?_part (name ++ ch ':' :: spaces) front
          (cr :: behind) i (by rwa [value]) (by rwa [value])
        rw [byteAt_read split_ there] at carriage
        exact noCR (carriage ▸ inside)
    valueEnd := by
      apply byteAt_read after_ (getElem?_at _)
      rw [List.length_append, List.length_append, List.length_map, List.length_cons]
      omega
    inside := by omega
    others := fun q outside => construct_others m lineBegin outside }

/-- A memory which starts with a `Host` header. -/
def hostLine : Mem Unit Byte := fun _ i => ((text "Host: a\r")[i]?).getD 0

theorem known_terminated_host : ∃ colon value last,
    TerminatedStrings hostLine ⟨(), 0⟩ 8 (construct hostLine ⟨(), 0⟩ 8) colon value last :=
  known_terminated hostLine ⟨(), 0⟩ 8 (by decide +kernel)

end MiniWebSrv.HTTP.Header
