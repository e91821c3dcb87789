import MiniWebSrv.HTTP.QueryParams
import MiniWebSrv.Lib.Memory

/-! # URL decoding in memory

The loops of `AddURLEncoded` and `DecodeURLEncoded` over a range of memory, with the addresses which
they read. The decoding of `HTTP/QueryParams`, which works on the bytes of the range, is what the
loop of `AddURLEncoded` does.
-/

namespace MiniWebSrv.HTTP.UrlDecoding

variable {B S H : Type}

/-! ## The loops -/

/-- What one of the two functions does with the characters: with those which it decodes, and with
    the others. -/
structure Decoder (S : Type) where
  append : S → Byte → S
  other : S → Byte → S

/-- `Begin`, the addresses read so far, and what has been decoded. -/
structure Cursor (B S : Type) where
  pos : Ptr B
  reads : List (Ptr B)
  out : S

/-- `*Begin++` -/
def Cursor.next (c : Cursor B S) : Cursor B S :=
  { c with pos := c.pos.add 1, reads := c.reads ++ [c.pos] }

/-- One turn of the loop. -/
def turn (decoder : Decoder S) (memory : Mem B Byte) (last : Ptr B) (c : Cursor B S) :
    Cursor B S :=
  let currVal := memory c.pos.block c.pos.off
  let c := c.next
  if currVal = ch '+' then
    { c with out := decoder.append c.out (ch ' ') }
  else if currVal = ch '%' ∧ c.pos.off < last.off then
    let high := memory c.pos.block c.pos.off
    let low := memory c.pos.block (c.pos.off + 1)
    { pos := c.pos.add 2
      reads := c.reads ++ [c.pos, c.pos.add 1]
      out := decoder.append c.out
        ((QueryParams.getHexVal high <<< 4) ||| QueryParams.getHexVal low) }
  else
    { c with out := decoder.other c.out currVal }

variable [DecidableEq B]

/-- `while (Begin!=End)`; `none` when it takes more than `fuel` turns. -/
def loop (decoder : Decoder S) (memory : Mem B Byte) (last : Ptr B) :
    Nat → Cursor B S → Option (Cursor B S)
  | 0, c => if c.pos = last then some c else none
  | fuel + 1, c =>
      if c.pos = last then some c else loop decoder memory last fuel (turn decoder memory last c)

def targetDecoder : Decoder (List Byte) where
  append target c := target ++ [c]
  other target c := target ++ [c]

/-- The parameters, and the value which is being decoded in `PS_VALUE_END`. -/
def paramDecoder : Decoder (QueryParams H × Option (List Byte)) where
  append s c := (s.1.appendTarget s.2 c, s.2)
  other s c :=
    match s.2 with
    | none =>
        if c = ch '=' then
          ({ s.1 with paramMap := StringMap.set s.1.parseTmp [] s.1.paramMap }, some s.1.parseTmp)
        else
          (s.1.appendTarget none c, none)
    | some key =>
        if c = ch '&' then
          ({ s.1 with parseTmp := [] }, none)
        else
          (s.1.appendTarget (some key) c, some key)

def decodeURLEncoded (memory : Mem B Byte) (target : List Byte) (first last : Ptr B) (fuel : Nat) :
    Option (Cursor B (List Byte)) :=
  loop targetDecoder memory last fuel ⟨first, [], target⟩

/-- `AddURLEncoded` on a range which is not null. -/
def addURLEncoded (memory : Mem B Byte) (q : QueryParams H) (first last : Ptr B) (fuel : Nat) :
    Option (Cursor B (QueryParams H × Option (List Byte))) :=
  loop paramDecoder memory last fuel ⟨first, [], { q with parseTmp := [] }, none⟩

/-! ## The bytes of the range -/

/-- What the loop makes of the bytes of its range; `none` where it leaves the range. -/
def decode (decoder : Decoder S) (out : S) : List Byte → Option S
  | [] => some out
  | c :: rest =>
      if c = ch '+' then
        decode decoder (decoder.append out (ch ' ')) rest
      else if c = ch '%' then
        match rest with
        | [] => some (decoder.other out c)
        | [_] => none
        | high :: low :: rest =>
            decode decoder (decoder.append out
              ((QueryParams.getHexVal high <<< 4) ||| QueryParams.getHexVal low)) rest
      else
        decode decoder (decoder.other out c) rest

/-- Escapes with both of their digits, and other characters. -/
inductive Whole : List Byte → Prop where
  | nil : Whole []
  | other {c : Byte} {rest : List Byte} (plain : c ≠ ch '%') (whole : Whole rest) :
      Whole (c :: rest)
  | escape {high low : Byte} {rest : List Byte} (whole : Whole rest) :
      Whole (ch '%' :: high :: low :: rest)

/-- The percent sign of an escape is the last but one byte of the range. -/
def CutEscape (bytes : List Byte) : Prop :=
  ∃ front digit, Whole front ∧ bytes = front ++ [ch '%', digit]

theorem decode_plus (decoder : Decoder S) (out : S) (rest : List Byte) :
    decode decoder out (ch '+' :: rest) = decode decoder (decoder.append out (ch ' ')) rest := by
  rw [decode.eq_def]
  simp only [if_true]

theorem percent_ne_plus : ch '%' ≠ ch '+' := by decide +kernel

theorem decode_other (decoder : Decoder S) (out : S) {c : Byte} {rest : List Byte}
    (noPlus : c ≠ ch '+') (alone : c = ch '%' → rest = []) :
    decode decoder out (c :: rest) = decode decoder (decoder.other out c) rest := by
  by_cases percent : c = ch '%'
  · obtain rfl := alone percent
    rw [decode.eq_def]
    simp only [percent, if_true]
    rfl
  · rw [decode.eq_def]
    simp only [noPlus, percent, if_false]

theorem decode_cut (decoder : Decoder S) (out : S) (digit : Byte) :
    decode decoder out [ch '%', digit] = none := by
  rw [decode, if_neg percent_ne_plus, if_pos rfl]

theorem decode_escape (decoder : Decoder S) (out : S) (high low : Byte) (rest : List Byte) :
    decode decoder out (ch '%' :: high :: low :: rest) =
      decode decoder (decoder.append out
        ((QueryParams.getHexVal high <<< 4) ||| QueryParams.getHexVal low)) rest := by
  rw [decode, if_neg percent_ne_plus, if_pos rfl]

theorem CutEscape.cons {c : Byte} {rest : List Byte} (cut : CutEscape rest) (plain : c ≠ ch '%') :
    CutEscape (c :: rest) := by
  obtain ⟨front, digit, whole, rfl⟩ := cut
  exact ⟨c :: front, digit, .other plain whole, rfl⟩

theorem cutEscape_of_decode {decoder : Decoder S} {out : S} {bytes : List Byte}
    (leaves : decode decoder out bytes = none) : CutEscape bytes := by
  fun_induction decode decoder out bytes with
  | case1 out => cases leaves
  | case2 out rest ih => exact (ih leaves).cons percent_ne_plus.symm
  | case3 out c => cases leaves
  | case4 out digit => exact ⟨[], _, .nil, rfl⟩
  | case5 out high low rest _ ih =>
      obtain ⟨front, digit, whole, rfl⟩ := ih leaves
      exact ⟨_ :: high :: low :: front, digit, .escape whole, rfl⟩
  | case6 out c rest noPlus noPercent ih => exact (ih leaves).cons noPercent

theorem decode_of_cutEscape {front : List Byte} (whole : Whole front) (decoder : Decoder S) (out : S)
    (digit : Byte) : decode decoder out (front ++ [ch '%', digit]) = none := by
  induction whole generalizing out with
  | nil => exact decode_cut decoder out digit
  | @other c rest plain whole ih =>
      rw [List.cons_append]
      by_cases plus : c = ch '+'
      · rw [plus, decode_plus]
        exact ih _
      · rw [decode_other decoder out plus fun percent => absurd percent plain]
        exact ih _
  | @escape high low rest whole ih =>
      rw [List.cons_append, List.cons_append, List.cons_append, decode_escape]
      exact ih _

theorem decode_none_iff (decoder : Decoder S) (out : S) (bytes : List Byte) :
    decode decoder out bytes = none ↔ CutEscape bytes := by
  constructor
  · exact cutEscape_of_decode
  · rintro ⟨front, digit, whole, rfl⟩
    exact decode_of_cutEscape whole decoder out digit

theorem addURLEncodedLoop_other (q : QueryParams H) (target : Option (List Byte)) {c : Byte}
    {rest : List Byte} (noPlus : c ≠ ch '+') (alone : c = ch '%' → rest = []) :
    q.addURLEncodedLoop target (c :: rest) =
      QueryParams.addURLEncodedLoop (paramDecoder.other (q, target) c).1
        (paramDecoder.other (q, target) c).2 rest := by
  have step : q.addURLEncodedLoop target (c :: rest) =
      match target with
      | none =>
          if c = ch '=' then
            QueryParams.addURLEncodedLoop
              { q with paramMap := StringMap.set q.parseTmp [] q.paramMap } (some q.parseTmp) rest
          else
            (q.appendTarget none c).addURLEncodedLoop none rest
      | some key =>
          if c = ch '&' then
            QueryParams.addURLEncodedLoop { q with parseTmp := [] } none rest
          else
            (q.appendTarget (some key) c).addURLEncodedLoop (some key) rest := by
    by_cases percent : c = ch '%'
    · obtain rfl := alone percent
      subst percent
      rw [QueryParams.addURLEncodedLoop.eq_def]
      rfl
    · rw [QueryParams.addURLEncodedLoop.eq_def]
      cases target with
      | none => simp only [noPlus, if_false, decide_eq_false percent]
      | some key => simp only [noPlus, if_false, decide_eq_false percent]
  rw [step]
  cases target with
  | none =>
      by_cases equals : c = ch '='
      · simp only [paramDecoder, equals, if_true]
      · simp only [paramDecoder, equals, if_false]
  | some key =>
      by_cases ampersand : c = ch '&'
      · simp only [paramDecoder, ampersand, if_true]
      · simp only [paramDecoder, ampersand, if_false]

/-- `HTTP/QueryParams` on the bytes of the range. -/
theorem addURLEncodedLoop_eq (out : QueryParams H × Option (List Byte)) (bytes : List Byte) :
    out.1.addURLEncodedLoop out.2 bytes = (decode paramDecoder out bytes).map Prod.fst := by
  fun_induction decode paramDecoder out bytes with
  | case1 out => rfl
  | case2 out rest ih =>
      unfold QueryParams.addURLEncodedLoop
      exact ih
  | case3 out noPlus =>
      rw [addURLEncodedLoop_other _ _ noPlus fun _ => rfl]
      rfl
  | case4 out digit noPlus =>
      unfold QueryParams.addURLEncodedLoop
      rfl
  | case5 out high low rest noPlus ih =>
      unfold QueryParams.addURLEncodedLoop
      exact ih
  | case6 out c rest noPlus noPercent ih =>
      rw [addURLEncodedLoop_other _ _ noPlus fun percent => absurd percent noPercent]
      exact ih

/-! ## One turn -/

section

omit [DecidableEq B]

variable (decoder : Decoder S) {memory : Mem B Byte} {last : Ptr B} {c : Cursor B S}

theorem turn_plus (plus : memory c.pos.block c.pos.off = ch '+') :
    turn decoder memory last c =
      ⟨c.pos.add 1, c.reads ++ [c.pos], decoder.append c.out (ch ' ')⟩ := by
  rw [turn, if_pos plus]
  rfl

theorem turn_other {b : Byte} (here : memory c.pos.block c.pos.off = b) (noPlus : b ≠ ch '+')
    (alone : b = ch '%' → last.off ≤ c.pos.off + 1) :
    turn decoder memory last c = ⟨c.pos.add 1, c.reads ++ [c.pos], decoder.other c.out b⟩ := by
  have guard : ¬(b = ch '%' ∧ c.next.pos.off < last.off) := fun escape =>
    Nat.not_lt.mpr (alone escape.1) escape.2
  rw [turn, here, if_neg noPlus, if_neg guard]
  rfl

theorem turn_escape {high low : Byte} (percent : memory c.pos.block c.pos.off = ch '%')
    (more : c.pos.off + 1 < last.off) (atHigh : memory c.pos.block (c.pos.off + 1) = high)
    (atLow : memory c.pos.block (c.pos.off + 2) = low) :
    turn decoder memory last c =
      ⟨c.pos.add 3, c.reads ++ [c.pos, c.pos.add 1, c.pos.add 2], decoder.append c.out
        ((QueryParams.getHexVal high <<< 4) ||| QueryParams.getHexVal low)⟩ := by
  have guard : ch '%' = ch '%' ∧ c.next.pos.off < last.off := ⟨rfl, more⟩
  have reads : c.reads ++ [c.pos, c.pos.add 1, c.pos.add 2] =
      c.reads ++ [c.pos] ++ [c.pos.add 1, c.pos.add 2] := by
    rw [List.append_assoc, List.singleton_append]
  rw [turn, percent, if_neg percent_ne_plus, if_pos guard, reads, ← atHigh, ← atLow]
  rfl

/-- Of the bytes of its range, the turn decodes some, and these are what it has read; or else it
    has passed the end of the range. -/
theorem turn_spec {b : Byte} {rest : List Byte}
    (bytes : memory.read c.pos (b :: rest).length = b :: rest)
    (ends : last = c.pos.add (b :: rest).length) :
    (decode decoder c.out (b :: rest) = none ∧ last.off < (turn decoder memory last c).pos.off) ∨
      ∃ k reads out, k ≤ rest.length ∧
        turn decoder memory last c = ⟨c.pos.add (k + 1), c.reads ++ reads, out⟩ ∧
        (∀ p ∈ reads, (Region.mk c.pos (k + 1)).Covers p) ∧
        decode decoder c.out (b :: rest) = decode decoder out (rest.drop k) := by
  obtain ⟨here, behind⟩ := List.cons.inj bytes
  have count : last.off = c.pos.off + (rest.length + 1) := by
    rw [ends, Ptr.add_off, List.length_cons]
  have one : ∀ p ∈ [c.pos], (Region.mk c.pos (0 + 1)).Covers p := by
    intro p member
    obtain rfl := List.mem_singleton.mp member
    exact ⟨rfl, Nat.le_refl _, Nat.lt_succ_self _⟩
  by_cases plus : b = ch '+'
  · subst plus
    right
    exact ⟨0, [c.pos], _, Nat.zero_le _, turn_plus decoder here, one, decode_plus _ _ _⟩
  by_cases escape : b = ch '%' ∧ rest ≠ []
  case neg =>
    have alone : b = ch '%' → rest = [] := fun percent =>
      by_contra fun more => escape ⟨percent, more⟩
    have atEnd : b = ch '%' → last.off ≤ c.pos.off + 1 := by
      intro percent
      rw [count, alone percent]
      exact Nat.le_refl _
    right
    exact ⟨0, [c.pos], _, Nat.zero_le _, turn_other decoder here plus atEnd, one,
      decode_other _ _ plus alone⟩
  obtain ⟨rfl, more⟩ := escape
  cases rest with
  | nil => cases more rfl
  | cons high rest =>
      obtain ⟨atHigh, behind⟩ := List.cons.inj behind
      have inside : c.pos.off + 1 < last.off := by
        rw [count, List.length_cons]
        omega
      cases rest with
      | nil =>
          left
          refine ⟨decode_cut _ _ _, ?_⟩
          rw [turn_escape decoder here inside atHigh rfl, count]
          exact Nat.lt_succ_self _
      | cons low rest =>
          obtain ⟨atLow, -⟩ := List.cons.inj behind
          right
          refine ⟨2, [c.pos, c.pos.add 1, c.pos.add 2], _, ?_,
            turn_escape decoder here inside atHigh atLow, ?_, decode_escape _ _ _ _ _⟩
          · simp only [List.length_cons]
            omega
          · intro p member
            have third : ∀ i, i < 3 → (Region.mk c.pos (2 + 1)).Covers (c.pos.add i) := fun i small =>
              ⟨rfl, Nat.le_add_right _ _, Nat.add_lt_add_left small _⟩
            rcases List.mem_cons.mp member with rfl | member
            · exact third 0 (by omega)
            rcases List.mem_cons.mp member with rfl | member
            · exact third 1 (by omega)
            obtain rfl := List.mem_singleton.mp member
            exact third 2 (by omega)

theorem turn_off (decoder : Decoder S) (memory : Mem B Byte) (last : Ptr B) (c : Cursor B S) :
    c.pos.off < (turn decoder memory last c).pos.off := by
  simp only [turn]
  split
  · exact Nat.lt_succ_self _
  split
  · simp only [Cursor.next, Ptr.add_off]
    omega
  · exact Nat.lt_succ_self _

end

/-! ## The whole loop -/

variable {decoder : Decoder S} {memory : Mem B Byte} {last : Ptr B} {c : Cursor B S}

theorem loop_done (fuel : Nat) (done : c.pos = last) :
    loop decoder memory last fuel c = some c := by
  cases fuel with
  | zero => exact if_pos done
  | succ fuel => exact if_pos done

theorem loop_succ (fuel : Nat) (more : c.pos ≠ last) :
    loop decoder memory last (fuel + 1) c =
      loop decoder memory last fuel (turn decoder memory last c) := if_neg more

theorem loop_none (more : c.pos ≠ last)
    (next : ∀ fuel, loop decoder memory last fuel (turn decoder memory last c) = none) (fuel : Nat) :
    loop decoder memory last fuel c = none := by
  cases fuel with
  | zero => exact if_neg more
  | succ fuel =>
      rw [loop_succ fuel more]
      exact next fuel

theorem loop_past (past : last.off < c.pos.off) (fuel : Nat) :
    loop decoder memory last fuel c = none := by
  have more : c.pos ≠ last := fun same => Nat.lt_irrefl _ (same ▸ past)
  induction fuel generalizing c with
  | zero => exact if_neg more
  | succ fuel ih =>
      have next := Nat.lt_trans past (turn_off decoder memory last c)
      rw [loop_succ fuel more]
      exact ih next fun same => Nat.lt_irrefl _ (same ▸ next)

/-- The loop over a range with these bytes. -/
theorem loop_spec (decoder : Decoder S) {bytes : List Byte}
    (holds : memory.read c.pos bytes.length = bytes) (ends : last = c.pos.add bytes.length) :
    (decode decoder c.out bytes = none ∧ ∀ fuel, loop decoder memory last fuel c = none) ∨
      ∃ fuel reads out, decode decoder c.out bytes = some out ∧
        loop decoder memory last fuel c = some ⟨last, c.reads ++ reads, out⟩ ∧
        ∀ p ∈ reads, (Region.mk c.pos bytes.length).Covers p := by
  induction count : bytes.length using Nat.strong_induction_on generalizing c bytes with
  | _ n ih =>
  cases bytes with
  | nil =>
      right
      have atEnd : c.pos = last := ends.symm
      refine ⟨0, [], c.out, rfl, ?_, fun p member => absurd member List.not_mem_nil⟩
      rw [loop_done 0 atEnd, List.append_nil, ← atEnd]
  | cons b rest =>
      rw [List.length_cons] at count
      have more : c.pos ≠ last := by
        intro same
        have off : last.off = c.pos.off + (rest.length + 1) := by
          rw [ends, Ptr.add_off, List.length_cons]
        rw [same] at off
        omega
      rcases turn_spec decoder holds ends with ⟨leaves, past⟩ | taken
      · left
        exact ⟨leaves, loop_none more (loop_past past)⟩
      obtain ⟨k, reads, out, few, turned, covered, decoded⟩ := taken
      have left : (rest.drop k).length = (b :: rest).length - (k + 1) := by
        rw [List.length_drop, List.length_cons]
        omega
      have behind : memory.read (c.pos.add (k + 1)) (rest.drop k).length = rest.drop k := by
        rw [left, ← Mem.drop_read memory c.pos (by rw [List.length_cons]; omega), holds,
          List.drop_succ_cons]
      have ends' : last = (c.pos.add (k + 1)).add (rest.drop k).length := by
        rw [ends, Ptr.add_add, left]
        congr 1
        rw [List.length_cons]
        omega
      have shorter : (rest.drop k).length < n := by
        rw [left, List.length_cons]
        omega
      let next : Cursor B S := ⟨c.pos.add (k + 1), c.reads ++ reads, out⟩
      rcases ih _ shorter (c := next) behind ends' rfl with
        ⟨leaves, never⟩ | ⟨fuel, others, whole, found, run, inside⟩
      · left
        refine ⟨decoded.trans leaves, loop_none more ?_⟩
        rw [turned]
        exact never
      · right
        refine ⟨fuel + 1, reads ++ others, whole, decoded.trans found, ?_, ?_⟩
        · rw [loop_succ fuel more, turned, run, List.append_assoc]
        · intro p member
          rcases List.mem_append.mp member with now | later
          · have part : 0 + (k + 1) ≤ n := by omega
            exact (covered p now).of_part (r := ⟨c.pos, n⟩) part
          · have part : (k + 1) + (rest.drop k).length ≤ n := by
              rw [List.length_drop]
              omega
            exact (inside p later).of_part (r := ⟨c.pos, n⟩) part

/-- The loop over the bytes of a range, from its beginning on. -/
theorem loop_range (decoder : Decoder S) (memory : Mem B Byte) (range : Region B) (out : S) :
    (decode decoder out (memory.read range.ptr range.len) = none ∧
        ∀ fuel, loop decoder memory range.last fuel ⟨range.ptr, [], out⟩ = none) ∨
      ∃ fuel reads whole, decode decoder out (memory.read range.ptr range.len) = some whole ∧
        loop decoder memory range.last fuel ⟨range.ptr, [], out⟩ =
          some ⟨range.last, reads, whole⟩ ∧ ∀ p ∈ reads, range.Covers p := by
  have length := memory.read_length range.ptr range.len
  have holds : memory.read range.ptr (memory.read range.ptr range.len).length =
      memory.read range.ptr range.len := by
    rw [length]
  have ends : range.last = range.ptr.add (memory.read range.ptr range.len).length := by
    rw [length, Region.last]
  have spec := loop_spec decoder (c := ⟨range.ptr, [], out⟩) holds ends
  rw [length] at spec
  exact spec

/-! ## The two functions -/

/-- The call reads only inside of the range, and it ends with `Begin==End`. -/
def StaysInside (range : Region B) (call : Nat → Option (Cursor B S)) : Prop :=
  ∃ fuel c, call fuel = some c ∧ c.pos = range.last ∧ ∀ p ∈ c.reads, range.Covers p

theorem staysInside_loop (decoder : Decoder S) (memory : Mem B Byte) (range : Region B) (out : S) :
    StaysInside range (fun fuel => loop decoder memory range.last fuel ⟨range.ptr, [], out⟩) ↔
      ¬CutEscape (memory.read range.ptr range.len) := by
  rw [← decode_none_iff decoder out]
  rcases loop_range decoder memory range out with
    ⟨leaves, never⟩ | ⟨fuel, reads, whole, found, run, covered⟩
  · constructor
    · rintro ⟨fuel, c, run, -⟩
      cases (never fuel).symm.trans run
    · exact fun stays => absurd leaves stays
  · constructor
    · intro _ leaves
      cases leaves.symm.trans found
    · intro _
      exact ⟨fuel, _, run, rfl, covered⟩

/-- What `AddURLEncoded` leaves behind is what it makes of the bytes of the range. -/
theorem addURLEncoded_eq {memory : Mem B Byte} {range : Region B} {q q' : QueryParams H}
    (result : q.addURLEncoded (memory.read range.ptr range.len) = some q') :
    ∃ fuel c, addURLEncoded memory q range.ptr range.last fuel = some c ∧ c.out.1 = q' := by
  let first : QueryParams H × Option (List Byte) := ({ q with parseTmp := [] }, none)
  have same := addURLEncodedLoop_eq first (memory.read range.ptr range.len)
  obtain ⟨out, decoded, rfl⟩ := Option.map_eq_some_iff.mp (same.symm.trans result)
  rcases loop_range paramDecoder memory range first with
    ⟨leaves, -⟩ | ⟨fuel, reads, whole, found, run, -⟩
  · cases leaves.symm.trans decoded
  · cases found.symm.trans decoded
    exact ⟨fuel, _, run, rfl⟩

theorem stays_inside_iff (memory : Mem B Byte) (range : Region B) (q : QueryParams H)
    (target : List Byte) :
    (StaysInside range (addURLEncoded memory q range.ptr range.last) ∧
        StaysInside range (decodeURLEncoded memory target range.ptr range.last)) ↔
      ¬CutEscape (memory.read range.ptr range.len) := by
  have params := staysInside_loop paramDecoder memory range ({ q with parseTmp := [] }, none)
  have chars := staysInside_loop targetDecoder memory range target
  constructor
  · rintro ⟨-, decodes⟩
    exact chars.mp decodes
  · intro whole
    exact ⟨params.mpr whole, chars.mpr whole⟩

/-- A request line in memory. -/
def cutRequestLine : Mem Unit Byte := fun _ i => (text "GET /?a%2 HTTP/1.1").getD i 0

/-- Its query. -/
def cutQuery : Region Unit := ⟨⟨(), 6⟩, 3⟩

theorem cut_query_leaves :
    ¬StaysInside cutQuery (addURLEncoded cutRequestLine (QueryParams.init () 0 none) cutQuery.ptr
        cutQuery.last) ∧
      ¬StaysInside cutQuery (decodeURLEncoded cutRequestLine [] cutQuery.ptr cutQuery.last) := by
  have bytes : cutRequestLine.read cutQuery.ptr cutQuery.len = [ch 'a'] ++ [ch '%', ch '2'] := by
    decide +kernel
  have plain : ch 'a' ≠ ch '%' := by decide +kernel
  have cut : CutEscape (cutRequestLine.read cutQuery.ptr cutQuery.len) :=
    ⟨[ch 'a'], ch '2', .other plain .nil, bytes⟩
  constructor
  · intro stays
    exact (staysInside_loop paramDecoder cutRequestLine cutQuery _).mp stays cut
  · intro stays
    exact (staysInside_loop targetDecoder cutRequestLine cutQuery []).mp stays cut

end MiniWebSrv.HTTP.UrlDecoding
