import MiniWebSrv.HTTP.Header

/-! # Lists of parameters

What `ParseDelimitedKeyValue` makes of a list of keys, some of which have values. Each item is read
from the state between two items to the same state again, but for the last one, whose value may be
ended by the end of the string.
-/

namespace MiniWebSrv.HTTP.Header

/-- A key by itself, or with a value which is a token, or with one in quotes. -/
inductive ParamItem where
  | bare (key : List Byte)
  | token (key value : List Byte)
  | quoted (key value : List Byte)

namespace ParamItem

def encode : ParamItem → List Byte
  | bare key => key
  | token key value => key ++ ch '=' :: value
  | quoted key value => key ++ ch '=' :: ch '"' :: (value ++ [ch '"'])

def ProperKey (key : List Byte) : Prop :=
  key ≠ [] ∧ ∀ c ∈ key, isWS c = false ∧ c ≠ ch ';' ∧ c ≠ ch '=' ∧ c ≠ 0

def Proper : ParamItem → Prop
  | bare key => ProperKey key
  | token key value => ProperKey key ∧ value ≠ [] ∧ value.head? ≠ some (ch '"') ∧
      ∀ c ∈ value, isWS c = false ∧ c ≠ ch ';' ∧ c ≠ 0
  | quoted key value => ProperKey key ∧ ∀ c ∈ value, c ≠ ch '"' ∧ c ≠ 0

/-- What the consumer is called with. -/
def call : ParamItem → List Byte × Option (List Byte)
  | bare key => (key, none)
  | token key value => (key, some value)
  | quoted key value => (key, some value)

end ParamItem

/-- The calls with a value. -/
def valued (calls : List (List Byte × Option (List Byte))) : List (List Byte × List Byte) :=
  calls.filterMap fun call => call.2.map fun value => (call.1, value)

/-- The items in their order, with a semicolon and any white space between two of them. -/
inductive Joined : List ParamItem → List Byte → Prop where
  | none : Joined [] []
  | last (item : ParamItem) (proper : item.Proper) : Joined [item] item.encode
  | more (item : ParamItem) {items : List ParamItem} {source : List Byte} (proper : item.Proper)
      (gap : List Byte) (spaces : ∀ c ∈ gap, isWS c = true) (some_ : items ≠ [])
      (rest : Joined items source) :
      Joined (item :: items) (item.encode ++ ch ';' :: (gap ++ source))

/-! ## Pieces of an item -/

namespace KeyValueParser

variable {p : KeyValueParser} {bytes : List Byte}

theorem foldl_gap (between : p.state = .zero) (spaces : ∀ c ∈ bytes, isWS c = true) :
    bytes.foldl step p = p := by
  induction bytes with
  | nil => rfl
  | cons c rest ih =>
      have space := spaces c List.mem_cons_self
      have stays : p.step c = p := by
        rw [step, between]
        exact if_neg (by rw [space]; exact fun other => Bool.noConfusion other.1)
      rw [List.foldl_cons, stays]
      exact ih fun c inside => spaces c (List.mem_cons_of_mem _ inside)

theorem foldl_key (reading : p.state = .key)
    (free : ∀ c ∈ bytes, isWS c = false ∧ c ≠ ch ';' ∧ c ≠ ch '=' ∧ c ≠ 0) :
    bytes.foldl step p = { p with key := p.key ++ bytes } := by
  induction bytes generalizing p with
  | nil => rw [List.foldl_nil, List.append_nil]
  | cons c rest ih =>
      obtain ⟨space, semicolon, equals, -⟩ := free c List.mem_cons_self
      have next : p.step c = { p with key := p.key ++ [c] } := by
        simp only [step, reading, space, Bool.false_eq_true, if_false, if_neg equals,
          if_neg semicolon]
      have later := @ih (p.step c) (by rw [next]; exact reading)
        fun c inside => free c (List.mem_cons_of_mem _ inside)
      rw [List.foldl_cons, later, next, List.append_assoc, List.singleton_append]

theorem foldl_val (reading : p.state = .val)
    (free : ∀ c ∈ bytes, isWS c = false ∧ c ≠ ch ';' ∧ c ≠ 0) :
    bytes.foldl step p = { p with value := p.value ++ bytes } := by
  induction bytes generalizing p with
  | nil => rw [List.foldl_nil, List.append_nil]
  | cons c rest ih =>
      obtain ⟨space, semicolon, -⟩ := free c List.mem_cons_self
      have next : p.step c = { p with value := p.value ++ [c] } := by
        simp only [step, reading, space, semicolon, Bool.false_eq_true, or_self, if_false]
      have later := @ih (p.step c) (by rw [next]; exact reading)
        fun c inside => free c (List.mem_cons_of_mem _ inside)
      rw [List.foldl_cons, later, next, List.append_assoc, List.singleton_append]

theorem foldl_quotedVal (reading : p.state = .quotedVal) (free : ∀ c ∈ bytes, c ≠ ch '"' ∧ c ≠ 0) :
    bytes.foldl step p = { p with value := p.value ++ bytes } := by
  induction bytes generalizing p with
  | nil => rw [List.foldl_nil, List.append_nil]
  | cons c rest ih =>
      have next : p.step c = { p with value := p.value ++ [c] } := by
        simp only [step, reading, if_neg (free c List.mem_cons_self).1]
      have later := @ih (p.step c) (by rw [next]; exact reading)
        fun c inside => free c (List.mem_cons_of_mem _ inside)
      rw [List.foldl_cons, later, next, List.append_assoc, List.singleton_append]

theorem foldl_properKey {key : List Byte} (between : p.state = .zero)
    (proper : ParamItem.ProperKey key) :
    key.foldl step p = { p with state := .key, key := key } := by
  obtain ⟨some_, free⟩ := proper
  cases key with
  | nil => exact absurd rfl some_
  | cons c rest =>
      obtain ⟨space, semicolon, -, -⟩ := free c List.mem_cons_self
      have first : p.step c = { p with state := .key, key := [c] } := by
        rw [step, between]
        exact if_pos ⟨space, semicolon⟩
      rw [List.foldl_cons, first,
        foldl_key rfl fun c inside => free c (List.mem_cons_of_mem _ inside)]
      rfl

theorem step_equals (reading : p.state = .key) :
    p.step (ch '=') = { p with state := .valSearch } := by
  rw [step, reading]
  rfl

/-- The state behind an item. A quoted value has been consumed already. -/
def after (p : KeyValueParser) : ParamItem → KeyValueParser
  | .bare key => { p with state := .key, key := key }
  | .token key value => { p with state := .val, key := key, value := value }
  | .quoted key value => ⟨.zero, key, value, p.consumed ++ [(key, some value)]⟩

theorem foldl_item {item : ParamItem} (between : p.state = .zero) (proper : item.Proper) :
    item.encode.foldl step p = p.after item := by
  cases item with
  | bare key => exact foldl_properKey between proper
  | token key value =>
      obtain ⟨properKey, some_, quote, free⟩ := proper
      cases value with
      | nil => exact absurd rfl some_
      | cons c rest =>
          obtain ⟨space, -, -⟩ := free c List.mem_cons_self
          have unquoted : c ≠ ch '"' := fun same => quote (congrArg some same)
          simp only [ParamItem.encode, List.foldl_append, List.foldl_cons,
            foldl_properKey between properKey]
          rw [step_equals rfl]
          have first : ({ p with state := .valSearch, key := key } : KeyValueParser).step c =
              { p with state := .val, key := key, value := [c] } := by
            simp only [step, space, if_neg unquoted, if_true]
          rw [first, foldl_val rfl fun c inside => free c (List.mem_cons_of_mem _ inside)]
          rfl
  | quoted key value =>
      obtain ⟨properKey, free⟩ := proper
      simp only [ParamItem.encode, List.foldl_append, List.foldl_cons, List.foldl_nil,
        foldl_properKey between properKey]
      rw [step_equals rfl]
      have opened : ({ p with state := .valSearch, key := key } : KeyValueParser).step (ch '"') =
          { p with state := .quotedVal, key := key, value := [] } := rfl
      rw [opened, foldl_quotedVal rfl free]
      rfl

/-- A semicolon makes a call of what has been read. -/
theorem step_semicolon (item : ParamItem) (between : p.state = .zero) (proper : item.Proper) :
    ((item.encode.foldl step p).step (ch ';')).state = .zero ∧
      ((item.encode.foldl step p).step (ch ';')).consumed = p.consumed ++ [item.call] := by
  rw [foldl_item between proper]
  cases item with
  | bare key => exact ⟨rfl, rfl⟩
  | token key value => exact ⟨rfl, rfl⟩
  | quoted key value => exact ⟨rfl, rfl⟩

theorem finish_item (item : ParamItem) (between : p.state = .zero) (proper : item.Proper) :
    valued (item.encode.foldl step p).finish.consumed = valued (p.consumed ++ [item.call]) := by
  rw [foldl_item between proper]
  cases item with
  | bare key =>
      have none_ : valued (p.consumed ++ [(key, none)]) = valued p.consumed := by
        simp only [valued, List.filterMap_append, List.filterMap_cons, List.filterMap_nil,
          Option.map_none, List.append_nil]
      exact none_.symm
  | token key value => rfl
  | quoted key value => rfl

theorem foldl_joined {items : List ParamItem} {source : List Byte} (joined : Joined items source)
    (between : p.state = .zero) :
    valued (source.foldl step p).finish.consumed =
      valued (p.consumed ++ items.map ParamItem.call) := by
  induction joined generalizing p with
  | none => simp only [List.foldl_nil, finish, between, List.map_nil, List.append_nil]
  | last item proper => exact finish_item item between proper
  | more item proper gap spaces some_ rest ih =>
      obtain ⟨again, consumed⟩ := step_semicolon item between proper
      rw [List.foldl_append, List.foldl_cons, List.foldl_append, foldl_gap again spaces, ih again,
        consumed, List.map_cons, List.append_assoc, List.singleton_append]

end KeyValueParser

/-! ## The string -/

theorem ParamItem.Proper.noNul {item : ParamItem} (proper : item.Proper) : 0 ∉ item.encode := by
  have key : ∀ {key : List Byte}, ProperKey key → 0 ∉ key :=
    fun proper inside => (proper.2 0 inside).2.2.2 rfl
  cases item with
  | bare name => exact key proper
  | token name value =>
      obtain ⟨properKey, -, -, free⟩ := proper
      have rest : 0 ∉ value := fun inside => (free 0 inside).2.2 rfl
      simp only [encode, List.mem_append, List.mem_cons, not_or]
      exact ⟨key properKey, by decide, rest⟩
  | quoted name value =>
      obtain ⟨properKey, free⟩ := proper
      have rest : 0 ∉ value := fun inside => (free 0 inside).2 rfl
      simp only [encode, List.mem_append, List.mem_cons, List.not_mem_nil, not_or]
      exact ⟨key properKey, by decide, by decide, rest, by decide, not_false⟩

theorem Joined.noNul {items : List ParamItem} {source : List Byte} (joined : Joined items source) :
    0 ∉ source := by
  induction joined with
  | none => exact List.not_mem_nil
  | last item proper => exact proper.noNul
  | more item proper gap spaces some_ rest ih =>
      have free : 0 ∉ gap := fun inside => Bool.noConfusion (spaces 0 inside)
      simp only [List.mem_append, List.mem_cons, not_or]
      exact ⟨proper.noNul, by decide, free, ih⟩

/-- Behind a pointer to a list of items, the calls with a value are those of the items which have
    one, in their order. -/
theorem params_exact {items : List ParamItem} {source : List Byte} (joined : Joined items source)
    (behind : List Byte) :
    valued (parseDelimitedKeyValue (cString (source ++ 0 :: behind))) =
      valued (items.map ParamItem.call) := by
  rw [cString_ended joined.noNul, parseDelimitedKeyValue, KeyValueParser.foldl_joined joined rfl]
  rfl

/-- A part's name and its file's, behind the bare word which comes first. -/
theorem params_exact_disposition :
    valued (parseDelimitedKeyValue (cString
      (text "form-data; name=a=b;  filename=\"x; y\"" ++ 0 :: text "\r\n"))) =
      [(text "name", text "a=b"), (text "filename", text "x; y")] := by
  have key : ∀ s : List Byte,
      (s ≠ [] ∧ ∀ c ∈ s, isWS c = false ∧ c ≠ ch ';' ∧ c ≠ ch '=' ∧ c ≠ 0) →
      ParamItem.ProperKey s := fun _ proper => proper
  have last := Joined.last (.quoted (text "filename") (text "x; y"))
    ⟨key _ (by decide +kernel), by decide +kernel⟩
  have two := Joined.more (.token (text "name") (text "a=b"))
    ⟨key _ (by decide +kernel), by decide, by decide, by decide +kernel⟩ (text "  ")
    (by decide +kernel) (List.cons_ne_nil _ _) last
  have three := Joined.more (.bare (text "form-data")) (key _ (by decide +kernel)) (text " ")
    (by decide +kernel) (List.cons_ne_nil _ _) two
  exact (params_exact three (text "\r\n")).trans rfl

end MiniWebSrv.HTTP.Header
