import MiniWebSrv.HTTP.Header
import MiniWebSrv.Lib.Tokens

/-! # String helpers

`UD::StringUtils`: the comparison which ignores the case, and the tokens of a list. A pointer to a C
string is given by the bytes from it on; the string ends at the first NUL, or where the bytes do.
-/

namespace MiniWebSrv.HTTP.StringUtils

open Header

/-! ## CmpI -/

/-- The value of a `char`, which is signed. -/
def charValue (c : Byte) : Int := if c < 128 then c.toNat else c.toNat - 256

/-- `CmpI` of a C string and a range. -/
def cmpI : List Byte → List Byte → Int
  | [], [] => 0
  | [], _ :: _ => -1
  | op1 :: _, [] => if lower op1 = 0 then 0 else 1
  | op1 :: rest1, op2 :: rest2 =>
      if lower op1 = 0 then -1
      else if charValue (lower op1) < charValue (lower op2) then -1
      else if charValue (lower op2) < charValue (lower op1) then 1
      else cmpI rest1 rest2

theorem charValue_injective {a b : Byte} (same : charValue a = charValue b) : a = b := by
  have first := a.toNat_lt
  have second := b.toNat_lt
  apply UInt8.toNat_inj.mp
  simp only [charValue, UInt8.lt_iff_toNat_lt, UInt8.reduceToNat] at same
  split at same <;> split at same <;> omega

/-- Two strings compare as equal exactly if they differ in their case at most. -/
theorem cmpI_zero_iff {op1 op2 : List Byte} (noNul : 0 ∉ op1) :
    cmpI op1 op2 = 0 ↔ op1.map lower = op2.map lower := by
  fun_induction cmpI op1 op2 with
  | case1 => exact ⟨fun _ => rfl, fun _ => rfl⟩
  | case2 op2 rest2 => exact ⟨fun zero => absurd zero (by decide), nofun⟩
  | case3 op1 rest1 nul =>
      exact absurd nul (lower_nul fun same => noNul (same ▸ List.mem_cons_self))
  | case4 op1 rest1 some_ => exact ⟨fun zero => absurd zero (by decide), nofun⟩
  | case5 op1 rest1 op2 rest2 nul =>
      exact absurd nul (lower_nul fun same => noNul (same ▸ List.mem_cons_self))
  | case6 op1 rest1 op2 rest2 some_ less =>
      refine ⟨fun zero => absurd zero (by decide), fun same => ?_⟩
      rw [List.map_cons, List.map_cons, List.cons.injEq] at same
      exact absurd less (same.1 ▸ lt_irrefl _)
  | case7 op1 rest1 op2 rest2 some_ more less =>
      refine ⟨fun zero => absurd zero (by decide), fun same => ?_⟩
      rw [List.map_cons, List.map_cons, List.cons.injEq] at same
      exact absurd less (same.1 ▸ lt_irrefl _)
  | case8 op1 rest1 op2 rest2 some_ more less ih =>
      have same : lower op1 = lower op2 := charValue_injective (by omega)
      rw [ih fun member => noNul (List.mem_cons_of_mem _ member), List.map_cons, List.map_cons,
        List.cons.injEq]
      exact ⟨fun rest => ⟨same, rest⟩, And.right⟩

/-- Nothing behind the NUL is looked at. -/
theorem cmpI_cString (op1 op2 : List Byte) : cmpI op1 op2 = cmpI (cString op1) op2 := by
  have nul : lower 0 = 0 := by decide
  induction op1 generalizing op2 with
  | nil => rfl
  | cons c rest ih =>
      by_cases zero : c = 0
      · subst zero
        rw [cString, List.takeWhile_cons_of_neg (by decide)]
        cases op2 with
        | nil | cons d rest2 => simp only [cmpI, nul, if_true]
      · have string : cString (c :: rest) = c :: cString rest := by
          rw [cString, List.takeWhile_cons_of_pos (by simp [zero])]
          rfl
        rw [string]
        cases op2 with
        | nil => rw [cmpI, cmpI]
        | cons d rest2 => rw [cmpI, cmpI, ih]

theorem cString_nul (s : List Byte) : 0 ∉ cString s := by
  intro member
  have ends := List.mem_takeWhile_imp member
  simp at ends

/-! ## Tokens -/

/-- `Trim` -/
def trim (classifier : Byte → Bool) (s : List Byte) : List Byte := Tokens.trim classifier s

/-- `ExtractTokens`, with the bytes between `Begin` and `Source`; the calls of the consumer in their
    order. -/
def extractFrom (separator : Byte) (token : List Byte) : List Byte → List (List Byte)
  | [] => if token = [] then [] else [token]
  | currVal :: rest =>
      if currVal = 0 then
        if token = [] then [] else [token]
      else if currVal = separator then
        (if token = [] then [] else [token]) ++ extractFrom separator [] rest
      else
        extractFrom separator (token ++ [currVal]) rest

def extractTokens (source : List Byte) (separator : Byte) : List (List Byte) :=
  extractFrom separator [] source

/-- `ExtractTrimWSTokens`, whose consumer trims the tokens and leaves the empty ones out. -/
def extractTrimWSTokens (source : List Byte) (separator : Byte) : List (List Byte) :=
  ((extractTokens source separator).map (trim isWS)).filter fun token => decide (token ≠ [])

theorem extractFrom_eq {separator : Byte} {token : List Byte} (none_ : separator ∉ token)
    (source : List Byte) :
    extractFrom separator token source = Tokens.tokens separator (token ++ cString source) := by
  induction source generalizing token with
  | nil =>
      rw [cString, List.takeWhile_nil, List.append_nil, Tokens.tokens_none none_]
      rfl
  | cons currVal rest ih =>
      by_cases nul : currVal = 0
      · rw [extractFrom, if_pos nul, cString, List.takeWhile_cons_of_neg (by simp [nul]),
          List.append_nil, Tokens.tokens_none none_]
      have string : cString (currVal :: rest) = currVal :: cString rest := by
        rw [cString, List.takeWhile_cons_of_pos (by simp [nul])]
        rfl
      rw [extractFrom, if_neg nul, string]
      by_cases ends : currVal = separator
      · rw [if_pos ends, ends, Tokens.tokens_append none_, ih List.not_mem_nil, List.nil_append]
      · have more : separator ∉ token ++ [currVal] := by
          intro member
          rcases List.mem_append.mp member with member | member
          · exact none_ member
          · exact ends (List.mem_singleton.mp member).symm
        rw [if_neg ends, ih more, List.append_assoc, List.singleton_append]

/-- The tokens of a string, as they are between its separators. -/
theorem extractTrimWSTokens_eq (source : List Byte) (separator : Byte) :
    extractTrimWSTokens source separator =
      Tokens.trimmedTokens isWS separator (cString source) := by
  rw [extractTrimWSTokens, extractTokens, extractFrom_eq List.not_mem_nil, List.nil_append,
    Tokens.trimmedTokens_eq]
  rfl

end MiniWebSrv.HTTP.StringUtils
