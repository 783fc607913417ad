import RobotBrain.Library.Trace
import Mathlib.Algebra.Order.Group.Defs

/-!
# Leases

A lease is granted at a time, renewed at later ones, and lost at the first check that comes more
than the timeout after the last renewal; once lost, only another grant brings it back. The history
of a lease is a list of these events, and whether it is held is a matter of the part of the history
since the last grant.

## Main definitions

* `LeaseEvent`, `lastRenewal` — histories.
* `LeaseHeld` — the last grant is a good one and no check since has come too late.

## Main results

* `leaseHeld_concat_grant`, `leaseHeld_concat_renew`, `leaseHeld_concat_check` — one more event.
-/

/-- An event in the history of a lease. -/
inductive LeaseEvent (γ τ : Type*)
  | grant (g : γ) (t : τ)
  | renew (t : τ)
  | check (t : τ)

variable {γ τ : Type*}

/-- The event is a grant. -/
def LeaseEvent.IsGrant : LeaseEvent γ τ → Prop
  | .grant _ _ => True
  | _ => False

/-- The time of the last grant or renewal, `start` if there is none. -/
def lastRenewal (start : τ) (history : List (LeaseEvent γ τ)) : τ :=
  history.foldl (fun last e => match e with
    | .grant _ t | .renew t => t
    | .check _ => last) start

@[simp] theorem lastRenewal_nil (start : τ) :
    lastRenewal start ([] : List (LeaseEvent γ τ)) = start := rfl

theorem lastRenewal_append (start : τ) (history more : List (LeaseEvent γ τ)) :
    lastRenewal start (history ++ more) = lastRenewal (lastRenewal start history) more :=
  List.foldl_append

section Held

variable [LinearOrder τ] [AddCommGroup τ]

/-- A check comes at most `timeout` after the last renewal. -/
def InTime (timeout granted : τ) (past : List (LeaseEvent γ τ)) : LeaseEvent γ τ → Prop
  | .check t => t - lastRenewal granted past ≤ timeout
  | _ => True

/-- The last grant is a good one, and every check since has come in time. -/
def LeaseHeld (timeout : τ) (good : γ → Prop) (history : List (LeaseEvent γ τ)) : Prop :=
  ∃ before g t since, history = before ++ .grant g t :: since ∧ good g ∧
    (∀ e ∈ since, ¬e.IsGrant) ∧ Each (InTime timeout t) since

variable {timeout : τ} {good : γ → Prop} {history : List (LeaseEvent γ τ)}

theorem not_leaseHeld_nil : ¬LeaseHeld timeout good ([] : List (LeaseEvent γ τ)) := by
  rintro ⟨before, g, t, since, heq, -⟩
  simp at heq

theorem leaseHeld_concat_grant {g : γ} {t : τ} :
    LeaseHeld timeout good (history ++ [.grant g t]) ↔ good g := by
  constructor
  · rintro ⟨before, g', t', since, heq, hgood, hsince, -⟩
    rcases List.eq_nil_or_concat since with rfl | ⟨since, e, rfl⟩
    · obtain ⟨-, hlast⟩ := List.append_inj' heq rfl
      cases hlast
      exact hgood
    · -- the last event would be after the last grant
      rw [List.concat_eq_append, ← List.cons_append, ← List.append_assoc] at heq
      obtain ⟨-, hlast⟩ := List.append_inj' heq rfl
      cases hlast
      exact absurd trivial (hsince (.grant g t) (by simp))
  · exact fun hgood => ⟨history, g, t, [], rfl, hgood, nofun, trivial⟩

/-- An event that is no grant leaves the last grant in place. -/
private theorem leaseHeld_concat {e : LeaseEvent γ τ} (he : ¬e.IsGrant) :
    LeaseHeld timeout good (history ++ [e]) ↔ ∃ before g t since,
      history = before ++ .grant g t :: since ∧ good g ∧ (∀ e ∈ since, ¬e.IsGrant) ∧
        Each (InTime timeout t) since ∧ InTime timeout t since e := by
  constructor
  · rintro ⟨before, g, t, since, heq, hgood, hsince, htime⟩
    rcases List.eq_nil_or_concat since with rfl | ⟨since, e', rfl⟩
    · obtain ⟨-, hlast⟩ := List.append_inj' heq rfl
      cases hlast
      exact absurd trivial he
    · rw [List.concat_eq_append] at heq hsince htime
      rw [← List.cons_append, ← List.append_assoc] at heq
      obtain ⟨rfl, hlast⟩ := List.append_inj' heq rfl
      cases hlast
      rw [List.forall_mem_append] at hsince
      rw [each_concat] at htime
      exact ⟨before, g, t, since, rfl, hgood, hsince.1, htime⟩
  · rintro ⟨before, g, t, since, rfl, hgood, hsince, htime⟩
    refine ⟨before, g, t, since ++ [e], by simp, hgood, ?_, each_concat.mpr htime⟩
    rw [List.forall_mem_append, List.forall_mem_singleton]
    exact ⟨hsince, he⟩

theorem leaseHeld_concat_renew {t : τ} :
    LeaseHeld timeout good (history ++ [.renew t]) ↔ LeaseHeld timeout good history := by
  rw [leaseHeld_concat (e := .renew t) id]
  constructor
  · rintro ⟨before, g, t', since, heq, hgood, hsince, htime, -⟩
    exact ⟨before, g, t', since, heq, hgood, hsince, htime⟩
  · rintro ⟨before, g, t', since, heq, hgood, hsince, htime⟩
    exact ⟨before, g, t', since, heq, hgood, hsince, htime, trivial⟩

/-- A check in time leaves the lease as it is, and a late one ends it. -/
theorem leaseHeld_concat_check {start t : τ} :
    LeaseHeld timeout good (history ++ [.check t]) ↔
      LeaseHeld timeout good history ∧ t - lastRenewal start history ≤ timeout := by
  rw [leaseHeld_concat (e := .check t) id]
  constructor
  · rintro ⟨before, g, t', since, rfl, hgood, hsince, htime, hcheck⟩
    refine ⟨⟨before, g, t', since, rfl, hgood, hsince, htime⟩, ?_⟩
    rw [lastRenewal_append]
    exact hcheck
  · rintro ⟨⟨before, g, t', since, rfl, hgood, hsince, htime⟩, hcheck⟩
    rw [lastRenewal_append] at hcheck
    exact ⟨before, g, t', since, rfl, hgood, hsince, htime, hcheck⟩

end Held
