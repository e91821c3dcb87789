import MiniWebSrv.HTTP.QueryParams
import MiniWebSrv.HTTP.RespSources

/-! # Routing

`RespSource::Combiner`: rewrites and redirects first, then the registered sources in their order.
A source is whatever has been registered; what it makes of its part of the resource is its own
business.
-/

namespace MiniWebSrv.HTTP.RespSource

/-- `std::string::find` from the beginning of the string. -/
def find (str : List Byte) : List Byte → Option Nat
  | [] => if str = [] then some 0 else none
  | c :: rest => if str.isPrefixOf (c :: rest) then some 0 else (find str rest).map (· + 1)

theorem find_zero_iff {str s : List Byte} : find str s = some 0 ↔ str <+: s := by
  cases s with
  | nil =>
      rw [find, List.prefix_nil]
      split <;> simp_all only [reduceCtorEq]
  | cons c rest =>
      rw [find, ← List.isPrefixOf_iff_prefix]
      split
      · rename_i front
        exact iff_of_true rfl front
      · rename_i other
        apply iff_of_false
        · intro found
          obtain ⟨n, -, next⟩ := Option.map_eq_some_iff.mp found
          exact Nat.succ_ne_zero n next
        · exact other

structure RSHolder (S : Type) where
  prefix_ : List Byte
  respSource : S
  exactMatchOnly : Bool
  deriving DecidableEq, Repr

/-- A simple rewrite leaves `IsPermanentRedirect` uninitialised. -/
structure RewHolder where
  target : List Byte
  isRedirect : Bool
  isPermanentRedirect : Bool
  deriving DecidableEq, Repr

structure RedirectResponse where
  respCode : ResponseCode
  targetLocation : List Byte
  deriving DecidableEq, Repr

namespace RedirectResponse

/-- The constructor. -/
def create (target : List Byte) (isPermanent : Bool) : RedirectResponse where
  respCode := if isPermanent then .movePermanent else .tempRedirect
  targetLocation := target

def getExtraHeader (r : RedirectResponse) (index : Nat) : Option (List Byte × List Byte) :=
  if index = 0 then some (Header.getHeaderName .location, r.targetLocation) else none

end RedirectResponse

/-- What `Create` returns: a response of its own, or what the source returns for its part of the
    resource. -/
inductive Created (S : Type) where
  | redirect (response : RedirectResponse)
  | create (respSource : S) (resource : List Byte)
  | commonError (response : CommonErrorResponse)
  deriving DecidableEq, Repr

structure Combiner (S : Type) where
  holderA : List (RSHolder S)
  rewMap : StringMap RewHolder

variable {S : Type}

/-- `operator()` -/
def RSHolder.call (h : RSHolder S) (resource : List Byte) : Bool :=
  if !h.exactMatchOnly && decide (h.prefix_.length < resource.length) then
    find h.prefix_ resource == some 0 && resource[h.prefix_.length]? == some (ch '/')
  else if resource.length = h.prefix_.length then
    resource == h.prefix_
  else
    false

namespace Combiner

def empty : Combiner S := ⟨[], []⟩

def addSimpleRewrite (c : Combiner S) (resource target : List Byte) (junk : Bool) : Combiner S :=
  { c with rewMap := StringMap.set resource ⟨target, false, junk⟩ c.rewMap }

def addRedirect (c : Combiner S) (resource target : List Byte) (isPermanent : Bool) : Combiner S :=
  { c with rewMap := StringMap.set resource ⟨target, true, isPermanent⟩ c.rewMap }

def addRespSource (c : Combiner S) (prefix_ : List Byte) (respSource : S) (exactMatchOnly : Bool) :
    Combiner S :=
  { c with holderA := c.holderA ++ [⟨prefix_, respSource, exactMatchOnly⟩] }

/-- The loop over `HolderA`. -/
def search (res : List Byte) : List (RSHolder S) → Created S
  | [] => .commonError (.create res none .notFound)
  | currHolder :: rest =>
      if currHolder.call res then
        .create currHolder.respSource (res.drop currHolder.prefix_.length)
      else
        search res rest

def create (c : Combiner S) (resource : List Byte) : Created S :=
  match c.rewMap.lookup resource with
  | some rew =>
      if rew.isRedirect then .redirect (.create rew.target rew.isPermanentRedirect)
      else search rew.target c.holderA
  | none => search resource c.holderA

end Combiner

/-! ## Segments -/

/-- The resource is the one of the holder, or one below it. -/
def RSHolder.Covers (h : RSHolder S) (r : List Byte) : Prop :=
  r = h.prefix_ ∨ h.exactMatchOnly = false ∧ h.prefix_ ++ [ch '/'] <+: r

instance (h : RSHolder S) (r : List Byte) : Decidable (h.Covers r) :=
  inferInstanceAs (Decidable (_ ∨ _))

theorem concat_prefix_iff {c : Byte} {str s : List Byte} (longer : str.length < s.length) :
    str ++ [c] <+: s ↔ str <+: s ∧ s[str.length]? = some c := by
  constructor
  · rintro ⟨rest, rfl⟩
    rw [List.append_assoc]
    exact ⟨List.prefix_append _ _, List.getElem?_append_right (Nat.le_refl _) |>.trans (by simp)⟩
  · rintro ⟨⟨rest, rfl⟩, next⟩
    cases rest with
    | nil =>
        rw [List.append_nil] at longer
        exact absurd longer (Nat.lt_irrefl _)
    | cons d rest =>
        rw [List.getElem?_append_right (Nat.le_refl _), Nat.sub_self, List.getElem?_cons_zero] at next
        obtain rfl := Option.some.inj next
        exact ⟨rest, by rw [List.append_assoc, List.singleton_append]⟩

theorem RSHolder.call_iff (h : RSHolder S) (r : List Byte) : h.call r = true ↔ h.Covers r := by
  unfold call Covers
  by_cases longer : h.prefix_.length < r.length
  · have other : r ≠ h.prefix_ := by
      rintro rfl
      exact Nat.lt_irrefl _ longer
    have unequal : ¬r.length = h.prefix_.length := Nat.ne_of_gt longer
    cases exact_ : h.exactMatchOnly with
    | true => simp [longer, other, unequal]
    | false => simp [longer, other, concat_prefix_iff longer, find_zero_iff]
  · have short : ¬h.prefix_ ++ [ch '/'] <+: r := by
      intro front
      apply longer
      have length := front.length_le
      rw [List.length_append, List.length_singleton] at length
      exact length
    have whole : r = h.prefix_ → r.length = h.prefix_.length := congrArg List.length
    simp only [longer, short]
    grind

/-- Behind its segments there is nothing, or a further segment. -/
theorem RSHolder.Covers.rest {h : RSHolder S} {r : List Byte} (covers : h.Covers r) :
    h.prefix_ ++ r.drop h.prefix_.length = r ∧
      (r.drop h.prefix_.length = [] ∨ (r.drop h.prefix_.length).head? = some (ch '/')) := by
  rcases covers with rfl | ⟨-, rest, rfl⟩
  · rw [List.drop_length, List.append_nil]
    exact ⟨rfl, Or.inl rfl⟩
  · rw [List.append_assoc, List.drop_left]
    exact ⟨rfl, Or.inr rfl⟩

/-! ## The first holder -/

namespace Combiner

/-- The resource which is searched for: the one of the request, or what it has been rewritten to. -/
inductive Rewrites (c : Combiner S) (resource : List Byte) : List Byte → Prop where
  | same (unmapped : c.rewMap.lookup resource = none) : Rewrites c resource resource
  | target {rew : RewHolder} (mapped : c.rewMap.lookup resource = some rew)
      (rewrite : rew.isRedirect = false) : Rewrites c resource rew.target

/-- Where a request goes. -/
inductive Routed (c : Combiner S) (resource : List Byte) : Created S → Prop where
  | redirect {rew : RewHolder} (mapped : c.rewMap.lookup resource = some rew)
      (redirect : rew.isRedirect = true) :
      Routed c resource (.redirect (.create rew.target rew.isPermanentRedirect))
  | create {r s : List Byte} {before behind : List (RSHolder S)} {h : RSHolder S}
      (rewritten : c.Rewrites resource r) (order : c.holderA = before ++ h :: behind)
      (first : ∀ g ∈ before, ¬g.Covers r) (covers : h.Covers r) (whole : h.prefix_ ++ s = r)
      (segment : s = [] ∨ s.head? = some (ch '/')) : Routed c resource (.create h.respSource s)
  | notFound {r : List Byte} (rewritten : c.Rewrites resource r)
      (nowhere : ∀ h ∈ c.holderA, ¬h.Covers r) :
      Routed c resource (.commonError (.create r none .notFound))

theorem search_none {r : List Byte} {holders : List (RSHolder S)}
    (nowhere : ∀ h ∈ holders, ¬h.Covers r) :
    search r holders = .commonError (.create r none .notFound) := by
  induction holders with
  | nil => rfl
  | cons h rest ih =>
      have refused : ¬h.call r = true := by
        rw [h.call_iff]
        exact nowhere h List.mem_cons_self
      rw [search, if_neg refused]
      apply ih
      intro g inside
      exact nowhere g (List.mem_cons_of_mem h inside)

theorem search_first {r : List Byte} {before behind : List (RSHolder S)} {h : RSHolder S}
    (first : ∀ g ∈ before, ¬g.Covers r) (covers : h.Covers r) :
    search r (before ++ h :: behind) = .create h.respSource (r.drop h.prefix_.length) := by
  induction before with
  | nil => rw [List.nil_append, search, if_pos ((h.call_iff r).mpr covers)]
  | cons g rest ih =>
      have refused : ¬g.call r = true := by
        rw [g.call_iff]
        exact first g List.mem_cons_self
      rw [List.cons_append, search, if_neg refused]
      apply ih
      intro g inside
      exact first g (List.mem_cons_of_mem _ inside)

theorem first_or_none (r : List Byte) (holders : List (RSHolder S)) :
    (∃ before h behind, holders = before ++ h :: behind ∧ (∀ g ∈ before, ¬g.Covers r) ∧
      h.Covers r) ∨ ∀ h ∈ holders, ¬h.Covers r := by
  induction holders with
  | nil =>
      right
      intro h inside
      cases inside
  | cons h rest ih =>
      by_cases covers : h.Covers r
      · left
        refine ⟨[], h, rest, rfl, ?_, covers⟩
        intro g inside
        cases inside
      · rcases ih with ⟨before, g, behind, rfl, first, last⟩ | nowhere
        · left
          exact ⟨h :: before, g, behind, rfl, List.forall_mem_cons.mpr ⟨covers, first⟩, last⟩
        · right
          exact List.forall_mem_cons.mpr ⟨covers, nowhere⟩

theorem Rewrites.create {c : Combiner S} {resource r : List Byte} (rewrites : c.Rewrites resource r) :
    c.create resource = search r c.holderA := by
  cases rewrites with
  | same unmapped => simp only [Combiner.create, unmapped]
  | target mapped rewrite => simp only [Combiner.create, mapped, rewrite, Bool.false_eq_true, if_false]

theorem Rewrites.routed {c : Combiner S} {resource r : List Byte} (rewrites : c.Rewrites resource r) :
    c.Routed resource (c.create resource) := by
  rw [rewrites.create]
  rcases first_or_none r c.holderA with ⟨before, h, behind, order, first, covers⟩ | nowhere
  · rw [order, search_first first covers]
    obtain ⟨whole, segment⟩ := covers.rest
    exact .create rewrites order first covers whole segment
  · rw [search_none nowhere]
    exact .notFound rewrites nowhere

/-- A mapped resource is redirected, or goes with what it is rewritten to; the first holder which
    covers it gets what is behind its segments; and if there is none, it is not found. -/
theorem create_iff (c : Combiner S) (resource : List Byte) (created : Created S) :
    c.create resource = created ↔ c.Routed resource created := by
  constructor
  · rintro rfl
    cases mapped : c.rewMap.lookup resource with
    | none => exact (Rewrites.same mapped).routed
    | some rew =>
        cases kind : rew.isRedirect with
        | false => exact (Rewrites.target mapped kind).routed
        | true =>
            have redirected := Routed.redirect mapped kind
            simpa only [create, mapped, kind, if_true] using redirected
  · intro routed
    cases routed with
    | redirect mapped redirect => simp only [create, mapped, redirect, if_true]
    | create rewritten order first covers whole segment =>
        rw [rewritten.create, order, search_first first covers, ← whole, List.drop_left]
    | notFound rewritten nowhere => rw [rewritten.create, search_none nowhere]

/-- A prefix ends where a segment ends, and what is behind it goes to the source. -/
example : (((empty.addRespSource (text "/a") 1 false).addRespSource (text "/ab") 2 true).addRespSource
      [] 3 false).create (text "/ab/c") = .create 3 (text "/ab/c") := by
  decide

end Combiner

end MiniWebSrv.HTTP.RespSource
