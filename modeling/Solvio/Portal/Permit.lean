import Solvio.Lib.Dict
import Solvio.Portal.Binding

namespace Solvio.Portal
open Solvio.Lib

/-- `DEFAULT_TTL`, in nanoseconds. -/
def defaultTtl : Nat := 45000000000

def writeMethods : List String := ["POST", "PUT", "PATCH", "DELETE"]

structure WritePermit where
  actionId : String
  origin : String
  method : String
  issuedAt : Nat
  ttl : Nat := defaultTtl
  uses : Nat := 0
  consumedUrl : String := ""
deriving DecidableEq

instance : Keyed WritePermit String := ⟨WritePermit.actionId⟩

variable {T : Texts}

namespace WritePermit

def spent (p : WritePermit) : Bool := 1 ≤ p.uses

def expired (p : WritePermit) (now : Nat) : Bool := p.ttl < now - p.issuedAt

/-- `matches`. The empty reason is that the request fits, and `none` a `ValueError`. -/
def fits (T : Texts) (p : WritePermit) (url method : String) (now : Nat) : Option String :=
  if p.spent then some "permit_spent"
  else if p.expired now then some "permit_expired"
  else if T.uppered method ≠ T.uppered p.method then some "method_mismatch"
  else (originOf T url).map (fun origin => if origin ≠ p.origin then "origin_mismatch" else "")

def consume (p : WritePermit) (url : String) : WritePermit :=
  { p with uses := p.uses + 1, consumedUrl := url }

/-- Everything that a request must be for a permit to fit it. -/
theorem fits_iff {p : WritePermit} {url method : String} {now : Nat} :
    p.fits T url method now = some "" ↔ p.uses = 0 ∧ now - p.issuedAt ≤ p.ttl ∧
      T.uppered method = T.uppered p.method ∧ originOf T url = some p.origin := by
  unfold fits spent expired
  split
  · rename_i hs
    have hs : 1 ≤ p.uses := by simpa using hs
    simp
    omega
  · rename_i hs
    have hs : p.uses = 0 := by simpa using hs
    split
    · rename_i he
      have he : p.ttl < now - p.issuedAt := by simpa using he
      simp
      omega
    · rename_i he
      have he : now - p.issuedAt ≤ p.ttl := by simpa using he
      split
      · rename_i hm
        simp [hm]
      · rename_i hm
        have hm : T.uppered method = T.uppered p.method := by simpa using hm
        cases originOf T url with
        | none => simp
        | some origin =>
          by_cases ho : origin = p.origin
          · simp [hs, he, hm, ho]
          · simp [ho]

end WritePermit

/-- `PermitBook`. -/
structure PermitBook where
  permits : Table WritePermit
deriving DecidableEq

namespace PermitBook

def empty : PermitBook := ⟨.empty⟩

/-- `issue`, which raises a `ValueError` for what is no write and without an origin. -/
def issue (T : Texts) (b : PermitBook) (actionId origin method : String) (now : Nat) :
    Option PermitBook :=
  if T.uppered method ∉ writeMethods ∨ origin = "" then none
  else some ⟨b.permits.assign {
    actionId := actionId, origin := origin, method := T.uppered method, issuedAt := now }⟩

/-- The loop of `allow`: the first permit that fits, or the last reason. -/
def search (T : Texts) (url method : String) (now : Nat) :
    List WritePermit → String → Option (WritePermit ⊕ String)
  | [], reason => some (.inr reason)
  | p :: ps, _ =>
    match p.fits T url method now with
    | none => none
    | some "" => some (.inl p)
    | some problem => search T url method now ps problem

/-- `allow`; an answer that is `none` is a `ValueError`. -/
def allow (T : Texts) (b : PermitBook) (url method : String) (now : Nat) :
    Option (Bool × String) × PermitBook :=
  if T.uppered method ∉ writeMethods then (some (true, ""), b)
  else match search T url method now b.permits.rows "no_permit" with
    | none => (none, b)
    | some (.inl p) => (some (true, ""), ⟨b.permits.delete p.actionId⟩)
    | some (.inr reason) => (some (false, reason), b)

def revoke (b : PermitBook) (actionId : String) : PermitBook := ⟨b.permits.delete actionId⟩

/-- `open_permits`. -/
def openPermits (b : PermitBook) : Nat := b.permits.size

variable {b b' : PermitBook} {url method actionId origin : String} {now : Nat}

theorem search_found {ps : List WritePermit} {reason : String} {p : WritePermit}
    (h : search T url method now ps reason = some (.inl p)) :
    p ∈ ps ∧ p.fits T url method now = some "" := by
  induction ps generalizing reason with
  | nil => simp [search] at h
  | cons q ps ih =>
    unfold search at h
    split at h
    · cases h
    · cases h
      rename_i hfits
      exact ⟨List.mem_cons_self .., hfits⟩
    · obtain ⟨hp, hfits⟩ := ih h
      exact ⟨List.mem_cons_of_mem _ hp, hfits⟩

/-- A write is let through by a permit that fits it, and takes it along. -/
theorem allow_write (hwrite : T.uppered method ∈ writeMethods)
    (h : (b.allow T url method now).1 = some (true, "")) : ∃ p ∈ b.permits,
      p.fits T url method now = some "" ∧
      (b.allow T url method now).2 = ⟨b.permits.delete p.actionId⟩ := by
  unfold allow at h ⊢
  rw [if_neg (not_not.mpr hwrite)] at h ⊢
  cases hs : search T url method now b.permits.rows "no_permit" with
  | none => simp [hs] at h
  | some found =>
    cases found with
    | inl p =>
      obtain ⟨hp, hfits⟩ := search_found hs
      exact ⟨p, hp, hfits, rfl⟩
    | inr reason => simp [hs] at h

/-- Otherwise nothing changes. -/
theorem allow_same
    (h : T.uppered method ∉ writeMethods ∨ (b.allow T url method now).1 ≠ some (true, "")) :
    (b.allow T url method now).2 = b := by
  unfold allow at h ⊢
  split
  · rfl
  · rename_i hwrite
    rw [if_neg hwrite] at h
    cases hs : search T url method now b.permits.rows "no_permit" with
    | none => rfl
    | some found =>
      cases found with
      | inl p =>
        rcases h with h | h
        · exact absurd h hwrite
        · simp [hs] at h
      | inr reason => rfl

theorem mem_allow {p : WritePermit} (h : p ∈ (b.allow T url method now).2.permits) :
    p ∈ b.permits := by
  by_cases hsame : T.uppered method ∉ writeMethods ∨ (b.allow T url method now).1 ≠ some (true, "")
  · rwa [allow_same hsame] at h
  · simp only [not_or, not_not] at hsame
    obtain ⟨q, -, -, hq⟩ := allow_write hsame.1 hsame.2
    rw [hq] at h
    exact (Table.mem_delete.mp h).1

theorem issue_some (h : b.issue T actionId origin method now = some b') :
    T.uppered method ∈ writeMethods ∧ origin ≠ "" ∧ b' = ⟨b.permits.assign {
      actionId := actionId, origin := origin, method := T.uppered method, issuedAt := now }⟩ := by
  unfold issue at h
  split at h
  · cases h
  · rename_i hok
    simp only [not_or, not_not] at hok
    exact ⟨hok.1, hok.2, (Option.some.inj h).symm⟩

/-- A permit costs one issue, and a write one permit. -/
theorem issue_size (h : b.issue T actionId origin method now = some b') :
    b'.openPermits ≤ b.openPermits + 1 := by
  obtain ⟨-, -, rfl⟩ := issue_some h
  exact Table.size_assign ..

theorem allow_size (hwrite : T.uppered method ∈ writeMethods)
    (h : (b.allow T url method now).1 = some (true, "")) :
    (b.allow T url method now).2.openPermits + 1 ≤ b.openPermits := by
  obtain ⟨p, hp, -, hbook⟩ := allow_write hwrite h
  rw [hbook]
  exact Table.size_delete_mem hp

theorem revoke_size (b : PermitBook) (actionId : String) :
    (b.revoke actionId).openPermits ≤ b.openPermits := Table.size_delete ..

end PermitBook

end Solvio.Portal
