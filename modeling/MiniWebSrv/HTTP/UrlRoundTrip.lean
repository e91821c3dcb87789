import MiniWebSrv.HTTP.QueryPairs

/-! # URL encoding and back

An encoder may write a byte in several ways. Whichever it takes, the decoder of the queries gets the
names and values back, and `DecodeURLEncoded` the text.
-/

namespace MiniWebSrv.HTTP.UrlDecoding

variable {S H B : Type}

/-! ## Encodings -/

/-- A hexadecimal digit, in upper or lower case. -/
def hexDigit (upper : Bool) (n : Byte) : Byte :=
  if n < 10 then ch '0' + n else (if upper then ch 'A' else ch 'a') + (n - 10)

/-- The characters which do not stand for themselves. -/
def special : List Byte := [ch '%', ch '+', ch '&', ch '=']

inductive EncodesByte (c : Byte) : List Byte → Prop
  | escape (upperHigh upperLow : Bool) :
      EncodesByte c [ch '%', hexDigit upperHigh (c >>> 4), hexDigit upperLow (c &&& 15)]
  | plus (space : c = ch ' ') : EncodesByte c [ch '+']
  | itself (plain : c ∉ special) : EncodesByte c [c]

inductive Encodes : List Byte → List Byte → Prop
  | nil : Encodes [] []
  | cons {c : Byte} {bytes chars encoded : List Byte} (byte : EncodesByte c chars)
      (rest : Encodes bytes encoded) : Encodes (c :: bytes) (chars ++ encoded)

inductive EncodesPair : Pair → List Byte → Prop
  | pair {key value name content : List Byte} (encodesKey : Encodes key name)
      (encodesValue : Encodes value content) :
      EncodesPair (key, value) (name ++ ch '=' :: content)

/-- The pairs with separators between them. -/
inductive EncodesPairs : List Pair → List Byte → Prop
  | nil : EncodesPairs [] []
  | last {pair : Pair} {encoded : List Byte} (encodes : EncodesPair pair encoded) :
      EncodesPairs [pair] encoded
  | cons {pair next : Pair} {pairs : List Pair} {encoded rest : List Byte}
      (encodes : EncodesPair pair encoded) (others : EncodesPairs (next :: pairs) rest) :
      EncodesPairs (pair :: next :: pairs) (encoded ++ ch '&' :: rest)

/-! ## Bytes -/

theorem getHexVal_hexDigit (upper : Bool) {n : Byte} (small : n < 16) :
    QueryParams.getHexVal (hexDigit upper n) = n := by
  have all : ((List.range 16).all fun k => [true, false].all fun upper =>
      QueryParams.getHexVal (hexDigit upper k.toUInt8) = k.toUInt8) = true := by
    decide +kernel
  have inside : n.toNat ∈ List.range 16 := List.mem_range.mpr (UInt8.lt_iff_toNat_lt.mp small)
  have here := List.all_eq_true.mp (List.all_eq_true.mp all n.toNat inside) upper (by cases upper <;> simp)
  rw [decide_eq_true_eq] at here
  simpa using here

theorem nibbles (c : Byte) : ((c >>> 4) <<< 4) ||| (c &&& 15) = c := by
  have all : ((List.range 256).all fun k =>
      ((k.toUInt8 >>> 4) <<< 4) ||| (k.toUInt8 &&& 15) = k.toUInt8) = true := by
    decide +kernel
  have here := List.all_eq_true.mp all c.toNat (List.mem_range.mpr c.toNat_lt)
  rw [decide_eq_true_eq] at here
  simpa using here

theorem high_small (c : Byte) : c >>> 4 < 16 := by
  have inside := c.toNat_lt
  apply UInt8.lt_iff_toNat_lt.mpr
  simp [Nat.shiftRight_eq_div_pow]
  omega

theorem low_small (c : Byte) : c &&& 15 < 16 := by
  apply UInt8.lt_iff_toNat_lt.mpr
  rw [UInt8.toNat_and]
  exact Nat.lt_of_le_of_lt Nat.and_le_right (by decide)

/-- A character which stands for the byte, and does not separate anything. -/
inductive Carries : QueryChar → Byte → Prop
  | decoded (c : Byte) : Carries (.decoded c) c
  | plain {c : Byte} (noEquals : c ≠ ch '=') (noAmpersand : c ≠ ch '&') : Carries (.plain c) c

theorem EncodesByte.chars {c : Byte} {encoded : List Byte} (encodes : EncodesByte c encoded) :
    completeEscapes encoded = true ∧ ∃ x, UrlDecoding.chars encoded = [x] ∧ Carries x c := by
  cases encodes with
  | escape upperHigh upperLow =>
      refine ⟨by rw [completeEscapes_escape, completeEscapes], .decoded c, ?_, .decoded c⟩
      rw [UrlDecoding.chars, decode_escape, getHexVal_hexDigit _ (high_small c),
        getHexVal_hexDigit _ (low_small c), nibbles]
      rfl
  | plus space =>
      subst space
      refine ⟨?_, .decoded (ch ' '), ?_, .decoded _⟩
      · rw [completeEscapes_cons (Ne.symm percent_ne_plus), completeEscapes]
      · rw [UrlDecoding.chars, decode_plus]
        rfl
  | itself plain =>
      simp only [special, List.mem_cons, List.not_mem_nil, or_false, not_or] at plain
      obtain ⟨noPercent, noPlus, noAmpersand, noEquals⟩ := plain
      refine ⟨?_, .plain c, ?_, .plain noEquals noAmpersand⟩
      · rw [completeEscapes_cons noPercent, completeEscapes]
      · rw [chars_plain noPlus noPercent (by rw [completeEscapes])]
        rfl

theorem Encodes.chars {bytes encoded : List Byte} (encodes : Encodes bytes encoded) :
    completeEscapes encoded = true ∧ List.Forall₂ Carries (UrlDecoding.chars encoded) bytes := by
  induction encodes with
  | nil => exact ⟨by rw [completeEscapes], .nil⟩
  | cons byte rest ih =>
      obtain ⟨complete, x, here, carries⟩ := byte.chars
      refine ⟨completeEscapes_append complete ih.1, ?_⟩
      rw [chars_append complete ih.1, here]
      exact .cons carries ih.2

/-! ## Names and values -/

def Place.extend : Place → List Byte → Place
  | .key k, bytes => .key (k ++ bytes)
  | .value k v, bytes => .value k (v ++ bytes)

theorem next_carried {x : QueryChar} {c : Byte} (carries : Carries x c) (place : Place) :
    place.next x = place.extend [c] ∧ place.pair x = [] := by
  cases carries with
  | decoded c =>
      cases place with
      | key k => exact ⟨rfl, rfl⟩
      | value k v => exact ⟨rfl, rfl⟩
  | plain noEquals noAmpersand =>
      cases place with
      | key k => exact ⟨if_neg noEquals, rfl⟩
      | value k v => exact ⟨if_neg noAmpersand, if_neg noAmpersand⟩

theorem extend_extend (place : Place) (front behind : List Byte) :
    (place.extend front).extend behind = place.extend (front ++ behind) := by
  cases place with
  | key k => simp only [Place.extend, List.append_assoc]
  | value k v => simp only [Place.extend, List.append_assoc]

/-- The bytes go to the key or the value which is being read. -/
theorem carried {front : List QueryChar} {bytes : List Byte}
    (carries : List.Forall₂ Carries front bytes) (place : Place) (behind : List QueryChar) :
    pairsFrom place (front ++ behind) = pairsFrom (place.extend bytes) behind ∧
      (front ++ behind).foldl Place.next place = behind.foldl Place.next (place.extend bytes) := by
  induction carries generalizing place with
  | nil =>
      have same : place.extend [] = place := by
        cases place with
        | key k => simp only [Place.extend, List.append_nil]
        | value k v => simp only [Place.extend, List.append_nil]
      rw [same, List.nil_append]
      exact ⟨rfl, rfl⟩
  | cons first rest ih =>
      obtain ⟨next, pair⟩ := next_carried first place
      obtain ⟨pairs, last⟩ := ih (place.extend [_])
      rw [extend_extend, List.singleton_append] at pairs last
      rw [List.cons_append, pairsFrom, pair, next, List.nil_append, pairs, List.foldl_cons, next, last]
      exact ⟨rfl, rfl⟩

theorem EncodesPair.pairs {pair : Pair} {encoded : List Byte} (encodes : EncodesPair pair encoded) :
    completeEscapes encoded = true ∧ pairsOf encoded = [pair] ∧
      endOf encoded = .value pair.1 pair.2 := by
  cases encodes with
  | @pair key value name content encodesKey encodesValue =>
      obtain ⟨complete, inKey⟩ := encodesKey.chars
      obtain ⟨complete', inValue⟩ := encodesValue.chars
      have noPlus : ch '=' ≠ ch '+' := by decide +kernel
      have noPercent : ch '=' ≠ ch '%' := by decide +kernel
      have tail : completeEscapes (ch '=' :: content) = true := by
        rw [completeEscapes_cons noPercent]
        exact complete'
      have all : UrlDecoding.chars (name ++ ch '=' :: content) =
          UrlDecoding.chars name ++ .plain (ch '=') :: UrlDecoding.chars content := by
        rw [chars_append complete tail, chars_plain noPlus noPercent complete']
      obtain ⟨ofKey, atKey⟩ :=
        carried inKey (.key []) (.plain (ch '=') :: UrlDecoding.chars content)
      obtain ⟨ofValue, atValue⟩ := carried inValue (.value key []) []
      rw [List.append_nil] at ofValue atValue
      refine ⟨completeEscapes_append complete tail, ?_, ?_⟩
      · rw [pairsOf, all, ofKey, pairsFrom]
        simp only [Place.extend, List.nil_append, Place.pair, Place.next, if_true, ofValue]
        rfl
      · rw [endOf, all, atKey, List.foldl_cons]
        simp only [Place.extend, List.nil_append, Place.next, if_true, atValue]
        rfl

theorem EncodesPairs.pairs {pairs : List Pair} {encoded : List Byte}
    (encodes : EncodesPairs pairs encoded) :
    completeEscapes encoded = true ∧ pairsOf encoded = pairs := by
  induction encodes with
  | nil => exact ⟨by rw [completeEscapes], rfl⟩
  | last encodes => exact ⟨encodes.pairs.1, encodes.pairs.2.1⟩
  | cons encodes others ih =>
      obtain ⟨complete, first, place⟩ := encodes.pairs
      have noPercent : ch '&' ≠ ch '%' := by decide +kernel
      refine ⟨completeEscapes_append complete (by rw [completeEscapes_cons noPercent]; exact ih.1), ?_⟩
      rw [pairsOf_joined complete ih.1, place, first]
      simp only [ih.2, List.singleton_append]

/-! ## Round trips -/

/-- The parameters have the values of the last pairs with their names, and the others are what they
    have been. -/
structure Assigned (pairs : List Pair) (before after : StringMap (List Byte)) : Prop where
  named : ∀ front name value behind, pairs = front ++ (name, value) :: behind →
    name ∉ behind.map Prod.fst → after.lookup name = some value
  others : ∀ name, name ∉ pairs.map Prod.fst → after.lookup name = before.lookup name

theorem setAll_assigned (pairs : List Pair) (m : StringMap (List Byte)) :
    Assigned pairs m (setAll pairs m) where
  named := by
    rintro front name value behind rfl last
    rw [lookup_setAll, List.reverse_append, List.lookup_append, List.reverse_cons,
      List.lookup_append, (lookup_none_iff behind name).mpr last, Option.none_or,
      List.lookup_cons_self, Option.some_or, Option.some_or]
  others name absent := by
    rw [lookup_setAll, (lookup_none_iff pairs name).mpr absent, Option.none_or]

/-- `DecodeURLEncoded` in memory appends the text to its target. -/
theorem decodeURLEncoded_encodes [DecidableEq B] {bytes : List Byte} {memory : Mem B Byte}
    {range : Region B} (encodes : Encodes bytes (memory.read range.ptr range.len))
    (target : List Byte) : ∃ fuel c,
      decodeURLEncoded memory target range.ptr range.last fuel = some c ∧ c.pos = range.last ∧
      c.out = target ++ bytes := by
  obtain ⟨complete, carries⟩ := encodes.chars
  have text_ : ∀ (all : List QueryChar) (bytes target : List Byte), List.Forall₂ Carries all bytes →
      all.foldl (QueryChar.give targetDecoder) target = target ++ bytes := by
    intro all bytes target carries
    induction carries generalizing target with
    | nil => rw [List.foldl_nil, List.append_nil]
    | cons first rest ih =>
        rw [List.foldl_cons, ih, ← List.singleton_append, ← List.append_assoc]
        cases first with
        | decoded c => rfl
        | plain noEquals noAmpersand => rfl
  have decoded := decode_complete complete targetDecoder target
  rw [text_ _ _ _ carries] at decoded
  rcases loop_range targetDecoder memory range target with
    ⟨leaves, -⟩ | ⟨fuel, reads, out, found, run, -⟩
  · cases leaves.symm.trans decoded
  · cases found.symm.trans decoded
    exact ⟨fuel, _, run, rfl, rfl⟩

/-- The encoding of a list of pairs is read back over any parameters, and the encoding of a text
    by `DecodeURLEncoded`. -/
theorem url_round_trip [DecidableEq B] :
    (∀ (pairs : List Pair) (encoded : List Byte) (q : QueryParams H), EncodesPairs pairs encoded →
      ∃ q', q.addURLEncoded encoded = some q' ∧ Assigned pairs q.paramMap q'.paramMap) ∧
    ∀ (bytes : List Byte) (memory : Mem B Byte) (range : Region B),
      Encodes bytes (memory.read range.ptr range.len) →
      ∃ fuel c, decodeURLEncoded memory [] range.ptr range.last fuel = some c ∧
        c.pos = range.last ∧ c.out = bytes := by
  constructor
  · intro pairs encoded q encodes
    obtain ⟨complete, same⟩ := encodes.pairs
    obtain ⟨q', run, map⟩ := addURLEncoded_pairs complete q
    refine ⟨q', run, ?_⟩
    rw [map, same]
    exact setAll_assigned pairs q.paramMap
  · intro bytes memory range encodes
    exact decodeURLEncoded_encodes encodes []

/-- The same key twice, with a space as a plus sign, and an escape in lower case. -/
theorem encodes_small : EncodesPairs [([ch 'a', ch ' '], [ch 'b']), ([ch 'a', ch ' '], [ch 'J'])]
    (text "a+=b&a+=%4a") := by
  have plain : ch 'a' ∉ special := by decide +kernel
  have plain' : ch 'b' ∉ special := by decide +kernel
  have key : Encodes [ch 'a', ch ' '] ([ch 'a'] ++ ([ch '+'] ++ [])) :=
    .cons (.itself plain) (.cons (.plus rfl) .nil)
  have before : Encodes [ch 'b'] ([ch 'b'] ++ []) := .cons (.itself plain') .nil
  have value : Encodes [ch 'J'] ([ch '%', hexDigit true (ch 'J' >>> 4),
      hexDigit false (ch 'J' &&& 15)] ++ []) :=
    .cons (.escape true false) .nil
  have written : text "a+=b&a+=%4a" =
      (([ch 'a'] ++ ([ch '+'] ++ [])) ++ ch '=' :: ([ch 'b'] ++ [])) ++ ch '&' ::
        (([ch 'a'] ++ ([ch '+'] ++ [])) ++ ch '=' ::
          ([ch '%', hexDigit true (ch 'J' >>> 4), hexDigit false (ch 'J' &&& 15)] ++ [])) := by
    decide +kernel
  rw [written]
  exact .cons (.pair key before) (.last (.pair key value))

/-- Over parameters which have the key already, and another one. -/
theorem url_round_trip_small : ∃ q', ({ QueryParams.init () 0 none with
      paramMap := [(text "a ", text "old"), (text "k", text "kept")] }).addURLEncoded
        (text "a+=b&a+=%4a") = some q' ∧
    q'.paramMap.lookup (text "a ") = some (text "J") ∧
    q'.paramMap.lookup (text "k") = some (text "kept") := by
  obtain ⟨q', run, assigned⟩ := (url_round_trip (H := Unit) (B := Unit)).1 _ _
    { QueryParams.init () 0 none with
      paramMap := [(text "a ", text "old"), (text "k", text "kept")] } encodes_small
  refine ⟨q', run, assigned.named [(text "a ", text "b")] _ _ [] rfl List.not_mem_nil, ?_⟩
  rw [assigned.others (text "k") (by decide +kernel)]
  decide +kernel

end MiniWebSrv.HTTP.UrlDecoding
