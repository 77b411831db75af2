import Mathlib.Data.Set.Card
import Timetable.Proofs.Cron.Matching

/-!
# From fire to fire

An expression of any kind leads from an instant to a fire, from there to the next one, and so on. The decision
at an instant counts the fires that are met on the way there from the last launch: it names the last of them, or
gives up when there are too many.
-/

namespace Timetable.Cron

namespace Expr

/-- The fires that are met one after the other from an instant on. -/
inductive Meets (e : Expr) (start : Instant) : Instant → Prop
  | first {u : Instant} (h : e.nextAfter start = .at u) : Meets e start u
  | next {u v : Instant} (hu : Meets e start u) (h : e.nextAfter u = .at v) : Meets e start v

/-- The fires that are met up to now. -/
def met (e : Expr) (start now : Instant) : Set Instant :=
  {u | e.Meets start u ∧ u ≤ now}

/-- No search for the fires up to now is aborted. -/
def Unbroken (e : Expr) (start now : Instant) : Prop :=
  ∀ p, p = start ∨ e.Meets start p → p ≤ now → e.nextAfter p ≠ .beyond

variable {e : Expr} {start now t u : Instant}

lemma meets_iff_of_nextAfter (h : e.nextAfter start = .at t) :
    e.Meets start u ↔ u = t ∨ e.Meets t u := by
  constructor
  · intro hu
    induction hu with
    | first h' => exact .inl (Upcoming.at.inj (h'.symm.trans h))
    | next _ h' ih =>
      obtain rfl | hu := ih
      · exact .inr (.first h')
      · exact .inr (.next hu h')
  · rintro (rfl | hu)
    · exact .first h
    · induction hu with
      | first h' => exact .next (.first h) h'
      | next _ h' ih => exact .next ih h'

lemma exists_nextAfter_of_meets (h : e.Meets start u) : ∃ t, e.nextAfter start = .at t := by
  induction h with
  | first h => exact ⟨_, h⟩
  | next _ _ ih => exact ih

theorem lt_of_meets (he : e.Steps) (h : e.Meets start u) : start < u := by
  induction h with
  | first h => exact (nextAfter_later he h).1
  | next _ h ih => exact ih.trans (nextAfter_later he h).1

lemma le_of_reached (he : e.Steps) (h : u = start ∨ e.Meets start u) : start ≤ u := by
  obtain rfl | h := h
  · exact le_rfl
  · exact (lt_of_meets he h).le

lemma le_of_meets (he : e.Steps) (h : e.nextAfter start = .at t) (hu : e.Meets start u) : t ≤ u :=
  le_of_reached he ((meets_iff_of_nextAfter h).1 hu)

section
variable (hstop : ∀ t, e.nextAfter start = .at t → now < t)
include hstop

lemma met_eq_empty (he : e.Steps) : e.met start now = ∅ := by
  refine Set.eq_empty_of_forall_notMem ?_
  rintro u ⟨hu, hle⟩
  obtain ⟨t, ht⟩ := exists_nextAfter_of_meets hu
  exact ((hstop t ht).trans_le (le_of_meets he ht hu)).not_ge hle

lemma Unbroken.of_stop (he : e.Steps) (hne : e.nextAfter start ≠ .beyond) :
    e.Unbroken start now := by
  rintro p (rfl | hp) hle
  · exact hne
  · have hmem : p ∈ e.met start now := ⟨hp, hle⟩
    rw [met_eq_empty hstop he] at hmem
    exact hmem.elim

lemma latestMissed_of_stop (hne : e.nextAfter start ≠ .beyond) (cap left : Nat)
    (found : Option Instant) : latestMissed e now cap left found start = .ok found := by
  cases hn : e.nextAfter start with
  | «at» t =>
    unfold latestMissed
    rw [hn]
    exact if_pos (hstop t hn)
  | never =>
    unfold latestMissed
    rw [hn]
  | beyond => exact absurd hn hne

end

section
variable (hn : e.nextAfter start = .at t) (hle : t ≤ now)
include hn hle

lemma met_eq_insert : e.met start now = insert t (e.met t now) := by
  ext u
  simp only [met, Set.mem_insert_iff, Set.mem_ofPred_eq, meets_iff_of_nextAfter hn]
  constructor
  · rintro ⟨rfl | hu, hu'⟩
    · exact .inl rfl
    · exact .inr ⟨hu, hu'⟩
  · rintro (rfl | ⟨hu, hu'⟩)
    · exact ⟨.inl rfl, hle⟩
    · exact ⟨.inr hu, hu'⟩

lemma encard_met (he : e.Steps) : (e.met start now).encard = (e.met t now).encard + 1 := by
  rw [met_eq_insert hn hle]
  refine Set.encard_insert_of_notMem ?_
  rintro ⟨ht, -⟩
  exact lt_irrefl t (lt_of_meets he ht)

lemma isLast_met (he : e.Steps) {m : Option Instant} (hm : IsLast (e.met t now) m) :
    IsLast (e.met start now) (m.or (some t)) := by
  rw [met_eq_insert hn hle]
  cases m with
  | none =>
    have hempty : e.met t now = ∅ := hm
    rw [hempty]
    exact ⟨Set.mem_insert t ∅, by simp [upperBounds]⟩
  | some u =>
    refine ⟨Set.mem_insert_of_mem _ hm.1, ?_⟩
    rintro v (rfl | hv)
    · exact (lt_of_meets he hm.1.1).le
    · exact hm.2 hv

omit hle in
lemma unbroken_iff_of_nextAfter : e.Unbroken start now ↔ e.Unbroken t now := by
  constructor
  · rintro h p hp hle
    exact h p (.inr ((meets_iff_of_nextAfter hn).2 hp)) hle
  · rintro h p (rfl | hp) hle
    · simp [hn]
    · exact h p ((meets_iff_of_nextAfter hn).1 hp) hle

end

/-- How walking ends: it is aborted, it gives up, or it has met all the fires up to now. -/
def Walked (e : Expr) (start now : Instant) (cap left : Nat) (found : Option Instant)
    (r : Except ScheduleError (Option Instant)) : Prop :=
  (r = .error .beyondCalendar ∧ ¬e.Unbroken start now) ∨
    (r = .error (.tooManyMissed cap) ∧ left < (e.met start now).encard) ∨
    ∃ m, r = .ok (m.or found) ∧ IsLast (e.met start now) m ∧ (e.met start now).encard ≤ left ∧
      e.Unbroken start now

lemma walked_of_stop (he : e.Steps) (hstop : ∀ t, e.nextAfter start = .at t → now < t)
    (hstart : start ≤ now) (cap left : Nat) (found : Option Instant) :
    e.Walked start now cap left found (latestMissed e now cap left found start) := by
  by_cases hbeyond : e.nextAfter start = .beyond
  · refine .inl ⟨?_, fun h => h start (.inl rfl) hstart hbeyond⟩
    unfold latestMissed
    rw [hbeyond]
  · refine .inr (.inr ⟨none, latestMissed_of_stop hstop hbeyond cap left found, ?_⟩)
    rw [met_eq_empty hstop he]
    exact ⟨rfl, by simp, .of_stop hstop he hbeyond⟩

/-- Walking counts the fires met up to now and ends with the last of them. -/
theorem walked_latestMissed (he : e.Steps) (cap left : Nat) (found : Option Instant)
    (hstart : start ≤ now) :
    e.Walked start now cap left found (latestMissed e now cap left found start) := by
  induction left generalizing found start with
  | zero =>
    by_cases hstop : ∀ t, e.nextAfter start = .at t → now < t
    · exact walked_of_stop he hstop hstart cap 0 found
    · push Not at hstop
      obtain ⟨t, hn, hle⟩ := hstop
      refine .inr (.inl ⟨?_, ?_⟩)
      · unfold latestMissed
        rw [hn]
        exact if_neg hle.not_gt
      · rw [encard_met hn hle he]
        simp
  | succ left ih =>
    by_cases hstop : ∀ t, e.nextAfter start = .at t → now < t
    · exact walked_of_stop he hstop hstart cap (left + 1) found
    · push Not at hstop
      obtain ⟨t, hn, hle⟩ := hstop
      have hgo : latestMissed e now cap (left + 1) found start =
          latestMissed e now cap left (some t) t := by
        conv_lhs => unfold latestMissed
        rw [hn]
        exact if_neg hle.not_gt
      have hwhole : e.Unbroken start now ↔ e.Unbroken t now := unbroken_iff_of_nextAfter hn
      rw [hgo]
      obtain ⟨hr, hbroken⟩ | ⟨hr, hcount⟩ | ⟨m, hr, hm, hcount, hrest⟩ := ih (some t) hle
      · exact .inl ⟨hr, fun h => hbroken (hwhole.1 h)⟩
      · refine .inr (.inl ⟨hr, ?_⟩)
        rw [encard_met hn hle he]
        push_cast
        exact (ENat.add_lt_add_iff_right (by simp)).2 hcount
      · refine .inr (.inr ⟨m.or (some t), ?_, isLast_met hn hle he hm, ?_, hwhole.2 hrest⟩)
        · rw [hr]
          cases m <;> rfl
        · rw [encard_met hn hle he]
          push_cast
          gcongr

/-- With a last launch in the future there is nothing to walk. -/
lemma walked_of_lt (he : e.Steps) (hlt : now < start) (cap left : Nat) :
    e.Walked start now cap left none (.ok none) := by
  have hstop : ∀ t, e.nextAfter start = .at t → now < t :=
    fun t ht => hlt.trans (nextAfter_later he ht).1
  refine .inr (.inr ⟨none, rfl, ?_⟩)
  rw [met_eq_empty hstop he]
  refine ⟨rfl, by simp, ?_⟩
  rintro p (rfl | hp) hle
  · exact absurd hle hlt.not_ge
  · exact absurd hle (hlt.trans (lt_of_meets he hp)).not_ge

lemma decision_eq (e : Expr) (cap : Nat) (last : Instant) (deadline : Option Int) (now : Instant) :
    e.decision cap last deadline now =
      (if now < earliest last deadline now then .ok none
        else latestMissed e now cap cap none (earliest last deadline now)).bind fun m =>
          (upcoming e now).map fun u => ⟨m, u⟩ := by
  unfold decision
  simp only [bind, Except.bind]
  split_ifs
  · cases upcoming e now <;> rfl
  · cases latestMissed e now cap cap none (earliest last deadline now) with
    | error _ => rfl
    | ok _ => cases upcoming e now <;> rfl

section
variable (he : e.Steps) (cap : Nat) {last : Instant} {deadline : Option Int}
  (hstart : earliest last deadline now = start)
include he hstart

/-- What a decision says about the fires that are met after the earliest instant that counts. -/
theorem decision_cases :
    (e.decision cap last deadline now = .error .beyondCalendar ∧
        (¬e.Unbroken start now ∨ e.nextAfter now = .beyond)) ∨
      (e.decision cap last deadline now = .error (.tooManyMissed cap) ∧
        cap < (e.met start now).encard) ∨
      (e.met start now).encard ≤ cap ∧ e.Unbroken start now ∧
        (e.nextAfter now = .never ∧
            e.decision cap last deadline now = .error (.unsatisfiable e.source) ∨
          ∃ m u, IsLast (e.met start now) m ∧ e.nextAfter now = .at u ∧
            e.decision cap last deadline now = .ok ⟨m, u⟩) := by
  have hwalked : e.Walked start now cap cap none
      (if now < start then .ok none else latestMissed e now cap cap none start) := by
    split_ifs with hlt
    · exact walked_of_lt he hlt cap cap
    · exact walked_latestMissed he cap cap none (not_lt.1 hlt)
  rw [decision_eq, hstart]
  obtain ⟨hr, hbroken⟩ | ⟨hr, hcount⟩ | ⟨m, hr, hm, hcount, hwhole⟩ := hwalked
  · rw [hr]
    exact .inl ⟨rfl, .inl hbroken⟩
  · rw [hr]
    exact .inr (.inl ⟨rfl, hcount⟩)
  · rw [hr, Option.or_none]
    unfold upcoming
    cases hn : e.nextAfter now with
    | beyond => exact .inl ⟨rfl, .inr rfl⟩
    | never => exact .inr (.inr ⟨hcount, hwhole, .inl ⟨rfl, rfl⟩⟩)
    | «at» u => exact .inr (.inr ⟨hcount, hwhole, .inr ⟨m, u, hm, rfl, rfl⟩⟩)

/-- A decision is made where the walk ends in time and there is a next fire. -/
theorem decision_eq_ok_iff {d : Decision} :
    e.decision cap last deadline now = .ok d ↔
      (e.met start now).encard ≤ cap ∧ e.Unbroken start now ∧ IsLast (e.met start now) d.missed ∧
        e.nextAfter now = .at d.next := by
  obtain ⟨hr, hbroken⟩ | ⟨hr, hcount⟩ | ⟨hcount, hwhole, ⟨hnever, hr⟩ | ⟨m, u, hm, hu, hr⟩⟩ :=
    decision_cases he cap hstart
  · rw [hr]
    refine ⟨fun h => by simp at h, fun ⟨_, hwhole, _, hnext⟩ => ?_⟩
    obtain hbroken | hbeyond := hbroken
    · exact absurd hwhole hbroken
    · simp [hbeyond] at hnext
  · rw [hr]
    exact ⟨fun h => by simp at h, fun h => absurd h.1 hcount.not_ge⟩
  · rw [hr]
    refine ⟨fun h => by simp at h, fun ⟨_, _, _, hnext⟩ => ?_⟩
    simp [hnever] at hnext
  · rw [hr]
    constructor
    · intro h
      obtain rfl := Except.ok.inj h
      exact ⟨hcount, hwhole, hm, hu⟩
    · rintro ⟨-, -, hm', hu'⟩
      obtain rfl := IsLast.unique hm hm'
      obtain rfl := Upcoming.at.inj (hu.symm.trans hu')
      rfl

end

/-! ## After a launch -/

lemma Meets.trans (h : e.Meets start t) (hu : e.Meets t u) : e.Meets start u := by
  induction hu with
  | first hn => exact .next h hn
  | next _ hn ih => exact .next ih hn

/-- A fire that still counts is not moved by the deadline. -/
lemma earliest_of_lt_missed {last : Instant} {deadline : Option Int} (hle : last ≤ t)
    (hlt : earliest last deadline now < t) : earliest t deadline now = t := by
  unfold earliest at hlt ⊢
  split at hlt
  · split_ifs at hlt with hlast
    · exact if_neg hlt.not_gt
    · exact if_neg ((le_of_not_gt hlast).trans hle).not_gt
  · rfl

/-- Once the missed fire is launched, none is missed any more and the next one is the same. -/
theorem decision_of_launched (he : e.Steps) {cap : Nat} {last : Instant} {deadline : Option Int}
    {d : Decision} (h : e.decision cap last deadline now = .ok d) (hm : d.missed = some t) :
    t ≤ now ∧ e.decision cap t deadline now = .ok ⟨none, d.next⟩ := by
  obtain ⟨-, hwhole, hlast, hnext⟩ := (decision_eq_ok_iff he cap rfl).1 h
  rw [hm] at hlast
  obtain ⟨⟨hmeets, hle⟩, hmax⟩ := hlast
  have hlt := lt_of_meets he hmeets
  have hstart : earliest t deadline now = t :=
    earliest_of_lt_missed ((le_earliest last deadline now).trans hlt.le) hlt
  have hnone : e.met t now = ∅ := by
    apply Set.eq_empty_of_forall_notMem
    rintro u ⟨hu, hule⟩
    have hback : u ≤ t := hmax ⟨hmeets.trans hu, hule⟩
    exact (lt_of_meets he hu).not_ge hback
  refine ⟨hle, (decision_eq_ok_iff he cap hstart).2 ⟨?_, ?_, hnone, hnext⟩⟩
  · rw [hnone]
    simp
  · rintro p (rfl | hp) hple
    · exact hwhole p (.inr hmeets) hple
    · exact hwhole p (.inr (hmeets.trans hp)) hple

end Expr

end Timetable.Cron
