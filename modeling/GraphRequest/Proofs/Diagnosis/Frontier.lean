import GraphRequest.Diagnosis
import Mathlib.Tactic.Lemma

/-!
# The frontier of a record of attempts

A frontier is computed from all attempts that were made, those on branches given up included.  It
leaves rules out and lets others stand for them, but it invents none: a rule that is recorded at a
place was attempted there.  So what is true of every attempt is true of every rule recorded.

* `Attempt.All` — something that is true of an attempt and of all attempts made on the way.
* `Frontier.Tracks`, `Frontier.Advances` — what a frontier has of it, and what recording does to it.
* `Frontier.Tracks.record` — the step, for one attempt and those inside it.
* `Frontier.advances_ofAttempts` — hence every rule recorded was attempted at the place of the
  frontier, and if an attempt failed there is such a rule.
-/

namespace GraphRequest

namespace Attempt

/-- Something that is true of an attempt and of all attempts made on the way. -/
inductive All (fits : Rule → Place → Prop) : Attempt → Prop
  | mk {rule : Rule} {place : Place} {stop : Option Nat} {inner : List Attempt}
      (hfits : fits rule place) (hinner : ∀ attempt ∈ inner, All fits attempt) :
      All fits (.mk rule place stop inner)

/-- That an attempt failed. -/
def Failed : Attempt → Prop
  | .mk _ _ stop _ => stop = none

end Attempt

namespace Frontier

variable {fits : Rule → Place → Prop} {tokens : Nat} {frontier : Frontier}

/-- What recording attempts preserves: the rules recorded fit the place, and as long as there are
    none the place is that of the whole text. -/
structure Tracks (fits : Rule → Place → Prop) (tokens : Nat) (frontier : Frontier) : Prop where
  fits : ∀ rule ∈ frontier.rules, fits rule frontier.place
  start : frontier.rules = [] → frontier.place = ⟨tokens, false⟩

lemma countAt_eq_zero (h : frontier.rules = []) (place : Place) : frontier.countAt place = 0 := by
  rw [countAt]
  split <;> simp [h]

lemma Tracks.push (h : frontier.Tracks fits tokens) {rule : Rule} {place : Place}
    (hfits : fits rule place) (kept : Nat) :
    (frontier.push rule place kept).Tracks fits tokens := by
  rw [Frontier.push]
  split
  · rename_i hplace
    refine ⟨fun other hother => ?_, by simp⟩
    rcases List.mem_append.mp hother with htaken | hlast
    · exact hplace ▸ h.fits other (List.mem_of_mem_take htaken)
    · rwa [List.mem_singleton.mp hlast]
  split
  · refine ⟨fun other hother => ?_, by simp⟩
    rwa [List.mem_singleton.mp hother]
  · exact h

/-- The place of the whole text is behind every other one, so that the first failure is recorded. -/
lemma push_rules_ne_nil (h : frontier.Tracks fits tokens) {rule : Rule} {place : Place}
    (hplace : place.ahead ≤ tokens) (kept : Nat) : (frontier.push rule place kept).rules ≠ [] := by
  rw [push]
  split
  · simp
  split
  · simp
  · rename_i hne hbehind
    intro hnil
    rw [h.start hnil] at hne hbehind
    obtain ⟨ahead, inside⟩ := place
    rcases Nat.lt_or_eq_of_le hplace with hless | rfl
    · exact hbehind (by simpa [Place.beyond] using Or.inl hless)
    · cases inside <;> simp [Place.beyond] at hne hbehind

/-- That recording leads from one frontier to another: what has to be true of rules stays true, and
    no frontier with rules, nor any after a failure, is without. -/
structure Advances (fits : Rule → Place → Prop) (tokens : Nat) (failed : Prop)
    (frontier later : Frontier) : Prop where
  tracks : later.Tracks fits tokens
  rules_ne_nil : frontier.rules ≠ [] ∨ failed → later.rules ≠ []

/-- Attempts one after the other, given what each of them does. -/
lemma Tracks.recordAll {attempts : List Attempt}
    (hstep : ∀ attempt ∈ attempts, ∀ frontier : Frontier, frontier.Tracks fits tokens →
      frontier.Advances fits tokens attempt.Failed (frontier.record attempt))
    (h : frontier.Tracks fits tokens) :
    frontier.Advances fits tokens (∃ attempt ∈ attempts, attempt.Failed)
      (frontier.recordAll attempts) := by
  induction attempts generalizing frontier with
  | nil => exact ⟨h, fun hor => by simpa [Frontier.recordAll] using hor⟩
  | cons attempt attempts ih =>
      have hfirst := hstep attempt List.mem_cons_self frontier h
      have hrest := ih (fun other hother => hstep other (List.mem_cons_of_mem _ hother))
        hfirst.tracks
      rw [Frontier.recordAll]
      refine ⟨hrest.tracks, fun hor => hrest.rules_ne_nil ?_⟩
      rcases hor with hne | ⟨other, hother, hfailed⟩
      · exact Or.inl (hfirst.rules_ne_nil (Or.inl hne))
      rcases List.mem_cons.mp hother with rfl | hlater
      · exact Or.inl (hfirst.rules_ne_nil (Or.inr hfailed))
      · exact Or.inr ⟨other, hlater, hfailed⟩

/-- **An attempt is recorded soundly.**  Either it is recorded itself, or what was recorded inside
    it stands for it. -/
theorem Tracks.record (hplaces : ∀ rule place, fits rule place → place.ahead ≤ tokens)
    {attempt : Attempt} (hattempt : attempt.All fits) (h : frontier.Tracks fits tokens) :
    frontier.Advances fits tokens attempt.Failed (frontier.record attempt) := by
  induction hattempt generalizing frontier with
  | @mk rule place stop inner hfits hinner ih =>
      have hafter := h.recordAll fun attempt hattempt _ => ih attempt hattempt
      rw [Frontier.record]
      split
      · rename_i hstands
        refine ⟨hafter.tracks, fun hor => ?_⟩
        rcases hor with hne | hfailed
        · exact hafter.rules_ne_nil (Or.inl hne)
        · -- the one rule recorded inside is there
          intro hnil
          rw [countAt_eq_zero hnil, show stop = none from hfailed] at hstands
          simp at hstands
      · exact ⟨hafter.tracks.push hfits _,
          fun _ => push_rules_ne_nil hafter.tracks (hplaces _ _ hfits) _⟩

/-- **What a frontier tells.**  Every rule recorded was attempted at the place of the frontier, and
    if an attempt failed then there is such a rule. -/
theorem advances_ofAttempts (hplaces : ∀ rule place, fits rule place → place.ahead ≤ tokens)
    {tried : List Attempt} (h : ∀ attempt ∈ tried, attempt.All fits) :
    Advances fits tokens (∃ attempt ∈ tried, attempt.Failed) ⟨⟨tokens, false⟩, []⟩
      (ofAttempts tokens tried) := by
  have hstart : Tracks fits tokens ⟨⟨tokens, false⟩, []⟩ := ⟨by simp, fun _ => rfl⟩
  exact hstart.recordAll fun attempt hattempt _ htracks =>
    htracks.record hplaces (h attempt hattempt)

end Frontier

end GraphRequest
