import MiniWebSrv.HTTP.FormRoundTrip
import MiniWebSrv.HTTP.RequestHead
import MiniWebSrv.HTTP.UrlDecoding

/-! # Queries as lists of pairs

What `AddURLEncoded` makes of a range is a list of pairs, which are assigned one after the other.
What has been decoded is never a separator. A `&` separates components behind an `=` only.
-/

namespace MiniWebSrv.HTTP

namespace UrlDecoding

variable {S H : Type}

/-! ## Characters -/

/-- A character of the range, decoded or not. -/
inductive QueryChar where
  | decoded (c : Byte)
  | plain (c : Byte)
  deriving DecidableEq, Repr

def QueryChar.give (decoder : Decoder S) (out : S) : QueryChar → S
  | .decoded c => decoder.append out c
  | .plain c => decoder.other out c

def charDecoder : Decoder (List QueryChar) where
  append out c := out ++ [.decoded c]
  other out c := out ++ [.plain c]

/-- The characters of a range which ends behind a whole escape. -/
def chars (bytes : List Byte) : List QueryChar := (decode charDecoder [] bytes).getD []

/-- Every decoder gets the same characters. -/
theorem decode_given (decoder : Decoder S) (out : S) (front : List QueryChar) (bytes : List Byte) :
    decode decoder (front.foldl (QueryChar.give decoder) out) bytes =
      (decode charDecoder front bytes).map fun all => all.foldl (QueryChar.give decoder) out := by
  have more : ∀ (front : List QueryChar) (c : QueryChar),
      (front ++ [c]).foldl (QueryChar.give decoder) out =
        c.give decoder (front.foldl (QueryChar.give decoder) out) := by
    intro front c
    rw [List.foldl_append, List.foldl_cons, List.foldl_nil]
  fun_induction decode charDecoder front bytes with
  | case1 front => rfl
  | case2 front rest ih =>
      rw [decode_plus, ← ih]
      simp only [charDecoder, more, QueryChar.give]
  | case3 front =>
      rw [decode_other _ _ percent_ne_plus fun _ => rfl, decode, Option.map_some]
      simp only [charDecoder, more, QueryChar.give]
  | case4 front digit =>
      rw [decode_cut, Option.map_none]
  | case5 front high low rest _ ih =>
      rw [decode_escape, ← ih]
      simp only [charDecoder, more, QueryChar.give]
  | case6 front c rest noPlus noPercent ih =>
      rw [decode_other _ _ noPlus fun percent => absurd percent noPercent, ← ih]
      simp only [charDecoder, more, QueryChar.give]

theorem completeEscapes_cons {c : Byte} (plain : c ≠ ch '%') (rest : List Byte) :
    completeEscapes (c :: rest) = completeEscapes rest := by
  rw [completeEscapes.eq_def]
  simp only [if_neg plain]

theorem completeEscapes_escape (high low : Byte) (rest : List Byte) :
    completeEscapes (ch '%' :: high :: low :: rest) = completeEscapes rest := by
  rw [completeEscapes, if_pos rfl]

theorem whole_of_complete {bytes : List Byte} (complete : completeEscapes bytes = true) :
    ¬CutEscape bytes := by
  rintro ⟨front, digit, whole, rfl⟩
  induction whole with
  | nil =>
      rw [List.nil_append, completeEscapes.eq_def] at complete
      simp only [if_true, Bool.false_eq_true] at complete
  | other plain whole ih =>
      rw [List.cons_append, completeEscapes_cons plain] at complete
      exact ih complete
  | escape whole ih =>
      rw [List.cons_append, List.cons_append, List.cons_append, completeEscapes_escape] at complete
      exact ih complete

theorem decode_append {front : List Byte} (complete : completeEscapes front = true)
    (decoder : Decoder S) (out : S) (behind : List Byte) :
    decode decoder out (front ++ behind) =
      (decode decoder out front).bind fun out => decode decoder out behind := by
  fun_induction completeEscapes front generalizing out with
  | case1 => rfl
  | case2 high low rest ih =>
      rw [List.cons_append, List.cons_append, List.cons_append, decode_escape, decode_escape]
      exact ih complete _
  | case3 => cases complete
  | case4 c rest other ih =>
      rw [List.cons_append]
      by_cases plus : c = ch '+'
      · rw [plus, decode_plus, decode_plus]
        exact ih complete _
      · rw [decode_other _ _ plus fun percent => absurd percent other,
          decode_other _ _ plus fun percent => absurd percent other]
        exact ih complete _

theorem decode_complete {bytes : List Byte} (complete : completeEscapes bytes = true)
    (decoder : Decoder S) (out : S) :
    decode decoder out bytes = some ((chars bytes).foldl (QueryChar.give decoder) out) := by
  obtain ⟨all, found⟩ := Option.ne_none_iff_exists'.mp fun leaves =>
    whole_of_complete complete ((decode_none_iff charDecoder [] bytes).mp leaves)
  have given := decode_given decoder out [] bytes
  rw [found, Option.map_some, List.foldl_nil] at given
  rw [given, chars, found, Option.getD_some]

theorem give_chars (front all : List QueryChar) :
    all.foldl (QueryChar.give charDecoder) front = front ++ all := by
  induction all generalizing front with
  | nil => rw [List.foldl_nil, List.append_nil]
  | cons c rest ih =>
      rw [List.foldl_cons, ih]
      cases c with
      | decoded c => exact List.append_assoc ..
      | plain c => exact List.append_assoc ..

theorem chars_append {front behind : List Byte} (complete : completeEscapes front = true)
    (complete' : completeEscapes behind = true) :
    chars (front ++ behind) = chars front ++ chars behind := by
  have whole := decode_append complete charDecoder [] behind
  rw [decode_complete complete, Option.bind_some, decode_complete complete', give_chars, give_chars,
    List.nil_append] at whole
  rw [chars, whole, Option.getD_some]

theorem completeEscapes_append {front behind : List Byte} (complete : completeEscapes front = true)
    (complete' : completeEscapes behind = true) : completeEscapes (front ++ behind) = true := by
  fun_induction completeEscapes front with
  | case1 => exact complete'
  | case2 high low rest ih =>
      rw [List.cons_append, List.cons_append, List.cons_append, completeEscapes_escape]
      exact ih complete
  | case3 => cases complete
  | case4 c rest other ih =>
      rw [List.cons_append, completeEscapes_cons other]
      exact ih complete

theorem chars_plain {c : Byte} {rest : List Byte} (noPlus : c ≠ ch '+') (noPercent : c ≠ ch '%')
    (complete : completeEscapes rest = true) : chars (c :: rest) = .plain c :: chars rest := by
  rw [chars, decode_other _ _ noPlus fun percent => absurd percent noPercent,
    decode_complete complete, give_chars, Option.getD_some]
  rfl

/-! ## Pairs -/

abbrev Pair := List Byte × List Byte

/-- Where the loop is: in a key, or in the value of one. -/
inductive Place where
  | key (key : List Byte)
  | value (key value : List Byte)
  deriving DecidableEq, Repr

/-- The place behind a character. -/
def Place.next : Place → QueryChar → Place
  | .key k, .decoded c => .key (k ++ [c])
  | .key k, .plain c => if c = ch '=' then .value k [] else .key (k ++ [c])
  | .value k v, .decoded c => .value k (v ++ [c])
  | .value k v, .plain c => if c = ch '&' then .key [] else .value k (v ++ [c])

/-- The pair which is complete at a character. -/
def Place.pair : Place → QueryChar → List Pair
  | .value k v, .plain c => if c = ch '&' then [(k, v)] else []
  | _, _ => []

/-- The pair which is complete at the end of the range. -/
def Place.last : Place → List Pair
  | .key _ => []
  | .value k v => [(k, v)]

def pairsFrom (place : Place) : List QueryChar → List Pair
  | [] => place.last
  | c :: rest => place.pair c ++ pairsFrom (place.next c) rest

def pairsOf (bytes : List Byte) : List Pair := pairsFrom (.key []) (chars bytes)

/-- The place at the end of the range. -/
def endOf (bytes : List Byte) : Place := (chars bytes).foldl Place.next (.key [])

def setAll (pairs : List Pair) (m : StringMap (List Byte)) : StringMap (List Byte) :=
  pairs.foldl (fun m pair => StringMap.set pair.1 pair.2 m) m

theorem setAll_append (front behind : List Pair) (m : StringMap (List Byte)) :
    setAll (front ++ behind) m = setAll behind (setAll front m) := List.foldl_append

/-- The parameters are those in front of the place, and the value which the place is in. -/
def Stands (out : QueryParams H × Option (List Byte)) (m : StringMap (List Byte)) : Place → Prop
  | .key k => out.2 = none ∧ out.1.parseTmp = k ∧ out.1.paramMap = m
  | .value k v => out.2 = some k ∧ out.1.paramMap = StringMap.set k v m

theorem stands_next {out : QueryParams H × Option (List Byte)} {m : StringMap (List Byte)}
    {place : Place} (stands : Stands out m place) (c : QueryChar) :
    Stands (c.give paramDecoder out) (setAll (place.pair c) m) (place.next c) := by
  obtain ⟨q, target⟩ := out
  cases place with
  | key k =>
      obtain ⟨rfl, rfl, rfl⟩ := stands
      cases c with
      | decoded c => exact ⟨rfl, rfl, rfl⟩
      | plain c =>
          simp only [QueryChar.give, paramDecoder, Place.next, Place.pair]
          by_cases equals : c = ch '='
          · rw [if_pos equals, if_pos equals]
            exact ⟨rfl, rfl⟩
          · rw [if_neg equals, if_neg equals]
            exact ⟨rfl, rfl, rfl⟩
  | value k v =>
      obtain ⟨rfl, map⟩ := stands
      simp only at map
      have appended : ∀ c, StringMap.set k ((q.paramMap.lookup k).getD [] ++ [c]) q.paramMap =
          StringMap.set k (v ++ [c]) m := by
        intro c
        rw [map, StringMap.lookup_set, Option.getD_some, StringMap.set_set]
      cases c with
      | decoded c => exact ⟨rfl, appended c⟩
      | plain c =>
          simp only [QueryChar.give, paramDecoder, Place.next, Place.pair]
          by_cases ampersand : c = ch '&'
          · rw [if_pos ampersand, if_pos ampersand, if_pos ampersand]
            exact ⟨rfl, rfl, map⟩
          · rw [if_neg ampersand, if_neg ampersand, if_neg ampersand]
            exact ⟨rfl, appended c⟩

theorem give_pairs {out : QueryParams H × Option (List Byte)} {m : StringMap (List Byte)}
    {place : Place} (stands : Stands out m place) (all : List QueryChar) :
    (all.foldl (QueryChar.give paramDecoder) out).1.paramMap = setAll (pairsFrom place all) m := by
  induction all generalizing out m place with
  | nil =>
      cases place with
      | key k => exact stands.2.2
      | value k v => exact stands.2
  | cons c rest ih =>
      rw [List.foldl_cons, ih (stands_next stands c), pairsFrom, setAll_append]

/-- `AddURLEncoded` assigns the pairs of the range. -/
theorem addURLEncoded_pairs {bytes : List Byte} (complete : completeEscapes bytes = true)
    (q : QueryParams H) : ∃ q', q.addURLEncoded bytes = some q' ∧
      q'.paramMap = setAll (pairsOf bytes) q.paramMap := by
  have run := addURLEncodedLoop_eq ({ q with parseTmp := [] }, none) bytes
  rw [decode_complete complete, Option.map_some] at run
  have stands : Stands ({ q with parseTmp := [] }, none) q.paramMap (.key []) := ⟨rfl, rfl, rfl⟩
  exact ⟨_, run, give_pairs stands _⟩

/-! ## What has been assigned -/

theorem lookup_setAll (pairs : List Pair) (m : StringMap (List Byte)) (name : List Byte) :
    (setAll pairs m).lookup name = (pairs.reverse.lookup name).or (m.lookup name) := by
  induction pairs generalizing m with
  | nil => rfl
  | cons pair rest ih =>
      have later : setAll (pair :: rest) m = setAll rest (StringMap.set pair.1 pair.2 m) := rfl
      rw [later, ih, List.reverse_cons, List.lookup_append, Option.or_assoc]
      congr 1
      by_cases same : pair.1 = name
      · subst same
        rw [StringMap.lookup_set, List.lookup_cons_self, Option.some_or]
      · rw [StringMap.lookup_set_other (Ne.symm same)]
        obtain ⟨key, value⟩ := pair
        simp only [List.lookup_cons, beq_false_of_ne (Ne.symm same), List.lookup_nil, Option.none_or]

theorem lookup_none_iff (pairs : List Pair) (name : List Byte) :
    pairs.reverse.lookup name = none ↔ name ∉ pairs.map Prod.fst := by
  rw [List.lookup_eq_none_iff]
  constructor
  · intro none_ member
    obtain ⟨pair, inside, rfl⟩ := List.mem_map.mp member
    have differs := none_ pair (List.mem_reverse.mpr inside)
    simp at differs
  · intro absent pair inside
    apply bne_iff_ne.mpr
    rintro rfl
    exact absent (List.mem_map_of_mem (List.mem_reverse.mp inside))

/-! ## Components side by side -/

/-- The first of the pairs, with something in front of its key. -/
def prefixFirst (front : List Byte) : List Pair → List Pair
  | [] => []
  | (key, value) :: rest => (front ++ key, value) :: rest

theorem pairsFrom_value (front key value : List Byte) (all : List QueryChar) :
    pairsFrom (.value (front ++ key) value) all =
      prefixFirst front (pairsFrom (.value key value) all) := by
  induction all generalizing value with
  | nil => rfl
  | cons c rest ih =>
      cases c with
      | decoded c => exact ih _
      | plain c =>
          simp only [pairsFrom, Place.pair, Place.next]
          by_cases ampersand : c = ch '&'
          · simp only [if_pos ampersand, List.singleton_append, prefixFirst]
          · simp only [if_neg ampersand, List.nil_append]
            exact ih _

theorem pairsFrom_key (front key : List Byte) (all : List QueryChar) :
    pairsFrom (.key (front ++ key)) all = prefixFirst front (pairsFrom (.key key) all) := by
  induction all generalizing key with
  | nil => rfl
  | cons c rest ih =>
      cases c with
      | decoded c =>
          simp only [pairsFrom, Place.pair, Place.next, List.nil_append, List.append_assoc]
          exact ih _
      | plain c =>
          simp only [pairsFrom, Place.pair, Place.next, List.nil_append]
          by_cases equals : c = ch '='
          · simp only [if_pos equals]
            exact pairsFrom_value front key [] rest
          · simp only [if_neg equals, List.append_assoc]
            exact ih _

theorem pairsFrom_joined (place : Place) (front behind : List QueryChar) :
    pairsFrom place (front ++ .plain (ch '&') :: behind) = pairsFrom place front ++
      match front.foldl Place.next place with
      | .value _ _ => pairsFrom (.key []) behind
      | .key key => prefixFirst (key ++ [ch '&']) (pairsFrom (.key []) behind) := by
  induction front generalizing place with
  | nil =>
      rw [List.nil_append, List.foldl_nil, pairsFrom]
      cases place with
      | value key value =>
          simp only [Place.pair, Place.next, if_true, pairsFrom, Place.last]
      | key key =>
          have notEquals : ch '&' ≠ ch '=' := by decide +kernel
          simp only [Place.pair, Place.next, if_neg notEquals, pairsFrom, Place.last, List.nil_append]
          rw [← pairsFrom_key, List.append_nil]
  | cons c rest ih =>
      rw [List.cons_append, pairsFrom, ih, pairsFrom, List.append_assoc, List.foldl_cons]

/-- The pairs of two ranges with a separator between them. -/
theorem pairsOf_joined {a b : List Byte} (complete : completeEscapes a = true)
    (complete' : completeEscapes b = true) :
    pairsOf (a ++ ch '&' :: b) = pairsOf a ++
      match endOf a with
      | .value _ _ => pairsOf b
      | .key key => prefixFirst (key ++ [ch '&']) (pairsOf b) := by
  have noPlus : ch '&' ≠ ch '+' := by decide +kernel
  have noPercent : ch '&' ≠ ch '%' := by decide +kernel
  have joined : completeEscapes (ch '&' :: b) = true := by
    rw [completeEscapes_cons noPercent]
    exact complete'
  rw [pairsOf, chars_append complete joined, chars_plain noPlus noPercent complete',
    pairsFrom_joined]
  rfl

/-- The value which a parameter has after the pairs have been assigned. -/
def latest (pairs : List Pair) (m : StringMap (List Byte)) (name : List Byte) :
    Option (List Byte) :=
  (pairs.reverse.lookup name).or (m.lookup name)

/-- The key of the first pair of `b` starts with the separator and what is in front of it in `a`.
    Nobody sees it where both this key and the right one are assigned again, or have had the value
    anyway. -/
def Unseen (m : StringMap (List Byte)) (a b : List Byte) (front : List Byte) : Prop :=
  ∀ pair ∈ (pairsOf b).head?, ∀ name ∈ [front ++ ch '&' :: pair.1, pair.1],
    name ∈ (pairsOf b).tail.map Prod.fst ∨ latest (pairsOf a) m name = some pair.2

/-- The components of `a` and `b` are kept apart. -/
def KeptApart (m : StringMap (List Byte)) (a b : List Byte) : Prop :=
  match endOf a with
  | .value _ _ => True
  | .key front => Unseen m a b front

/-- Two assignments of a value to different parameters, with others behind them. -/
theorem lookup_either_iff {first second : List Byte} (differ : first ≠ second) (value : List Byte)
    (rest : List Pair) (m : StringMap (List Byte)) :
    (∀ name, (setAll ((first, value) :: rest) m).lookup name =
        (setAll ((second, value) :: rest) m).lookup name) ↔
      ∀ name ∈ [first, second], name ∈ rest.map Prod.fst ∨ m.lookup name = some value := by
  have assigned : ∀ key name, (setAll ((key, value) :: rest) m).lookup name =
      (rest.reverse.lookup name).or (if name = key then some value else m.lookup name) := by
    intro key name
    have later : setAll ((key, value) :: rest) m = setAll rest (StringMap.set key value m) := rfl
    rw [later, lookup_setAll]
    split
    · rename_i same
      rw [same, StringMap.lookup_set]
    · rename_i other
      rw [StringMap.lookup_set_other other]
  simp only [assigned]
  constructor
  · intro same name member
    by_cases again : name ∈ rest.map Prod.fst
    · exact Or.inl again
    have here := same name
    rw [(lookup_none_iff rest name).mpr again, Option.none_or, Option.none_or] at here
    right
    rcases List.mem_pair.mp member with rfl | rfl
    · rw [if_pos rfl, if_neg differ] at here
      exact here.symm
    · rw [if_neg (Ne.symm differ), if_pos rfl] at here
      exact here
  · intro unseen name
    by_cases again : name ∈ rest.map Prod.fst
    · have found : rest.reverse.lookup name ≠ none := fun none_ =>
        (lookup_none_iff rest name).mp none_ again
      obtain ⟨value', found⟩ := Option.ne_none_iff_exists'.mp found
      rw [found, Option.some_or, Option.some_or]
    congr 1
    by_cases isFirst : name = first
    · rcases unseen name (List.mem_pair.mpr (Or.inl isFirst)) with member | had
      · exact absurd member again
      · rw [if_pos isFirst, had]
        split <;> rfl
    by_cases isSecond : name = second
    · rcases unseen name (List.mem_pair.mpr (Or.inr isSecond)) with member | had
      · exact absurd member again
      · rw [if_neg isFirst, if_pos isSecond, had]
    · rw [if_neg isFirst, if_neg isSecond]

/-- The parameters are the same whether two ranges are given one after the other or joined by a
    separator, exactly if the first one ends in a value, or nobody sees the key which is wrong. -/
theorem components_independent_iff {a b : List Byte} (complete : completeEscapes a = true)
    (complete' : completeEscapes b = true) (q : QueryParams H) :
    (∃ joined first second, q.addURLEncoded (a ++ ch '&' :: b) = some joined ∧
      q.addURLEncoded a = some first ∧ first.addURLEncoded b = some second ∧
      ∀ name, joined.paramMap.lookup name = second.paramMap.lookup name) ↔
    KeptApart q.paramMap a b := by
  have noPercent : ch '&' ≠ ch '%' := by decide +kernel
  have all : completeEscapes (a ++ ch '&' :: b) = true :=
    completeEscapes_append complete (by rw [completeEscapes_cons noPercent]; exact complete')
  obtain ⟨joined, joins, joinedMap⟩ := addURLEncoded_pairs all q
  obtain ⟨first, begins, firstMap⟩ := addURLEncoded_pairs complete q
  obtain ⟨second, ends, secondMap⟩ := addURLEncoded_pairs complete' first
  have same : (∃ joined first second, q.addURLEncoded (a ++ ch '&' :: b) = some joined ∧
      q.addURLEncoded a = some first ∧ first.addURLEncoded b = some second ∧
      ∀ name, joined.paramMap.lookup name = second.paramMap.lookup name) ↔
      ∀ name, joined.paramMap.lookup name = second.paramMap.lookup name := by
    constructor
    · rintro ⟨joined', first', second', joins', begins', ends', same⟩
      obtain rfl := Option.some.inj (joins.symm.trans joins')
      obtain rfl := Option.some.inj (begins.symm.trans begins')
      obtain rfl := Option.some.inj (ends.symm.trans ends')
      exact same
    · exact fun same => ⟨joined, first, second, joins, begins, ends, same⟩
  rw [same, joinedMap, secondMap, firstMap, pairsOf_joined complete complete', setAll_append]
  unfold KeptApart
  cases endOf a with
  | value key value => exact ⟨fun _ => trivial, fun _ _ => rfl⟩
  | key front =>
      simp only [Unseen]
      cases pairsOf b with
      | nil =>
          constructor
          · exact fun _ pair member => absurd member (Option.not_mem_none pair)
          · exact fun _ _ => rfl
      | cons pair rest =>
          obtain ⟨key, value⟩ := pair
          have differ : front ++ ch '&' :: key ≠ key := by
            intro same
            have length := congrArg List.length same
            rw [List.length_append, List.length_cons] at length
            omega
          have either := lookup_either_iff differ value rest (setAll (pairsOf a) q.paramMap)
          simp only [lookup_setAll (pairsOf a)] at either
          simp only [prefixFirst, List.append_assoc, List.singleton_append, List.head?_cons,
            List.tail_cons, Option.mem_some_iff, forall_eq', latest]
          exact either

/-- The first range ends in a value. -/
theorem components_independent_values : ∃ joined first second : QueryParams Unit,
    (QueryParams.init () 0 none).addURLEncoded (text "a=%41&b=" ++ ch '&' :: text "c=1") =
      some joined ∧
    (QueryParams.init () 0 none).addURLEncoded (text "a=%41&b=") = some first ∧
    first.addURLEncoded (text "c=1") = some second ∧
    ∀ name, joined.paramMap.lookup name = second.paramMap.lookup name := by
  have inValue : endOf (text "a=%41&b=") = .value (text "b") [] := by decide +kernel
  apply (components_independent_iff (a := text "a=%41&b=") (b := text "c=1") (by decide +kernel)
    (by decide +kernel) _).mpr
  rw [KeptApart, inValue]
  trivial

/-- The parameter `b` is not there, as its key is taken to be `a&b`. -/
theorem separator_swallowed :
    ¬∀ (a b : List Byte) (q : QueryParams Unit), completeEscapes a = true →
      completeEscapes b = true →
      ∃ joined first second, q.addURLEncoded (a ++ ch '&' :: b) = some joined ∧
        q.addURLEncoded a = some first ∧ first.addURLEncoded b = some second ∧
        ∀ name, joined.paramMap.lookup name = second.paramMap.lookup name := by
  intro all
  obtain ⟨joined, first, second, joins, begins, ends, same⟩ := all (text "a") (text "b=1")
    (QueryParams.init () 0 none) (by decide +kernel) (by decide +kernel)
  have wrong : ((QueryParams.init () 0 none).addURLEncoded (text "a" ++ ch '&' :: text "b=1")).map
      (fun q => q.paramMap.lookup (text "b")) = some none := by
    decide +kernel
  have right : (((QueryParams.init () 0 none).addURLEncoded (text "a")).bind fun q =>
      q.addURLEncoded (text "b=1")).map (fun q => q.paramMap.lookup (text "b")) =
      some (some (text "1")) := by
    decide +kernel
  rw [joins, Option.map_some] at wrong
  rw [begins, Option.bind_some, ends, Option.map_some, ← same, Option.some.inj wrong] at right
  cases right

end UrlDecoding

end MiniWebSrv.HTTP
