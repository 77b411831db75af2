import Timetable.Controller.Pass
import Timetable.Proofs.Calendar.Date
import Timetable.Proofs.Calendar.Instant

/-!
# Fires lie ahead

The next fire after an instant is a later whole second, and so is a missed fire after the last launch, for
every expression that was read from a text.
-/

namespace Timetable.Cron

/-! ## The search -/

theorem Fields.lt_of_skip? {f : Fields} {minute next : Int} (h : f.skip? minute = some next) :
    minute < next := by
  unfold Fields.skip? at h
  dsimp only at h
  split_ifs at h
  · have hnext : nextMonth (dateOf minute) = 1440 * (dateOf minute).nextMonthStart.toDay := rfl
    obtain ⟨hmonth, -, -, hlast⟩ := Date.ofDay_valid (dayOf minute)
    have hstart := Date.toDay_nextMonthStart (d := dateOf minute) hmonth
    have hday : (dateOf minute).toDay = dayOf minute := Date.toDay_ofDay _
    unfold dayOf at hday
    have hle : (dateOf minute).day ≤
        Date.daysInMonth (Date.isLeap (dateOf minute).year) (dateOf minute).month := hlast
    have he := Option.some.inj h
    omega
  · have he := Option.some.inj h
    unfold dayOf at he
    omega
  · have he := Option.some.inj h
    omega
  · have he := Option.some.inj h
    omega

theorem Fields.le_of_search {f : Fields} {lastYear : Int} {steps : Nat} {minute found : Int}
    (h : f.search lastYear steps minute = some found) : minute ≤ found := by
  induction steps generalizing minute with
  | zero => simp [Fields.search] at h
  | succ steps ih =>
    unfold Fields.search at h
    split_ifs at h
    cases hs : f.skip? minute with
    | none =>
      rw [hs] at h
      exact (Option.some.inj h).le
    | some next =>
      rw [hs] at h
      exact (Fields.lt_of_skip? hs).le.trans (ih h)

theorem Fields.nextAfter_later {f : Fields} {zone : Int} {t u : Instant}
    (h : f.nextAfter zone t = .at u) : t < u ∧ u.nano = 0 := by
  unfold Fields.nextAfter at h
  dsimp only at h
  rw [ite_eq_iff] at h
  obtain ⟨-, h⟩ | ⟨-, h⟩ := h
  · simp at h
  cases hs : f.search ((dateOf (minuteAfter zone t)).year + horizonYears) searchSteps
      (minuteAfter zone t) with
  | none => simp [hs] at h
  | some minute =>
    have hle := Fields.le_of_search hs
    rw [hs] at h
    dsimp only at h
    split_ifs at h
    obtain rfl := Upcoming.at.inj h
    refine ⟨?_, rfl⟩
    rw [Instant.lt_def]
    unfold minuteAfter at hle
    simp only [minuteStart, Instant.ofSecond]
    omega

/-! ## Expressions -/

/-- A period is at least one second long. -/
def Expr.Steps (e : Expr) : Prop :=
  ∀ seconds, e.plan = .every seconds → 1 ≤ seconds

theorem Expr.nextAfter_later {e : Expr} (he : e.Steps) {t u : Instant} (h : e.nextAfter t = .at u) :
    t < u ∧ u.nano = 0 := by
  unfold Expr.nextAfter at h
  cases hp : e.plan with
  | fields f =>
    rw [hp] at h
    exact Fields.nextAfter_later h
  | every seconds =>
    have hs := he seconds hp
    rw [hp] at h
    dsimp only at h
    cases ha : t.truncate.add? (seconds * giga) with
    | none => simp [ha] at h
    | some fire =>
      rw [ha] at h
      obtain rfl := Upcoming.at.inj h
      obtain ⟨-, rfl⟩ := Instant.add?_eq_some_iff.1 ha
      rw [Instant.truncate_shift]
      exact ⟨Instant.lt_ofSecond_add hs t, rfl⟩

lemma sumDuration_pos {total : Nat} {digits cs : List Char} {n : Nat}
    (h : sumDuration total digits cs = some n) : 1 ≤ n := by
  induction cs generalizing total digits with
  | nil =>
    unfold sumDuration at h
    split_ifs at h with hd
    rw [← Option.some.inj h]
    simp only [Bool.and_eq_true, decide_eq_true_eq] at hd
    exact hd.2
  | cons c cs ih =>
    unfold sumDuration at h
    split_ifs at h
    · exact ih h
    · split at h
      · split_ifs at h
        exact ih h
      · simp at h

lemma parseDuration_pos {raw : List Char} {n : Nat} (h : parseDuration raw = .ok n) : 1 ≤ n := by
  unfold parseDuration at h
  split at h
  · simp at h
  · rename_i m hm
    split_ifs at h
    rw [← Except.ok.inj h]
    exact sumDuration_pos hm

lemma map_fields_ne_every {r : Except CronError Fields} {seconds : Nat} :
    r.map Plan.fields ≠ .ok (.every seconds) := by
  cases r <;> simp [Except.map]

lemma parseDescriptor_every {name : List Char} {seconds : Nat}
    (h : parseDescriptor name = .ok (.every seconds)) : 1 ≤ seconds := by
  unfold parseDescriptor at h
  split at h
  · exact absurd h map_fields_ne_every
  · split at h
    · rename_i c rest _
      split_ifs at h
      cases hd : parseDuration (Text.trim rest) with
      | error e => simp [hd, Except.map] at h
      | ok n =>
        simp only [hd, Except.map, Except.ok.injEq, Plan.every.injEq] at h
        exact h ▸ parseDuration_pos hd
    · simp at h

theorem Expr.steps_of_parse {text : String} {e : Expr} (h : Expr.parse text = .ok e) : e.Steps := by
  intro seconds hp
  unfold Expr.parse at h
  simp only [bind, Except.bind] at h
  split_ifs at h
  split at h
  · simp at h
  · split at h
    · simp at h
    · split at h
      · simp at h
      · rename_i plan hplan
        obtain rfl := Except.ok.inj h
        dsimp only at hp
        exact parseDescriptor_every (hp ▸ hplan)
    · split at h
      · simp at h
      · rename_i plan hplan
        obtain rfl := Except.ok.inj h
        dsimp only at hp
        exact absurd (hp ▸ hplan) map_fields_ne_every

/-! ## Missed fires -/

theorem latestMissed_later {e : Expr} (he : e.Steps) {now : Instant} {cap left : Nat}
    {found : Option Instant} {start last t : Instant} (hstart : last ≤ start)
    (hfound : ∀ u, found = some u → last < u ∧ u.nano = 0)
    (h : latestMissed e now cap left found start = .ok (some t)) : last < t ∧ t.nano = 0 := by
  induction left generalizing found start with
  | zero =>
    unfold latestMissed at h
    split at h
    · simp at h
    · exact hfound t (Except.ok.inj h)
    · split_ifs at h
      exact hfound t (Except.ok.inj h)
  | succ left ih =>
    unfold latestMissed at h
    split at h
    · simp at h
    · exact hfound t (Except.ok.inj h)
    · rename_i u hu
      obtain ⟨hlater, hnano⟩ := Expr.nextAfter_later he hu
      split_ifs at h
      · exact hfound t (Except.ok.inj h)
      · refine ih (hstart.trans hlater.le) ?_ h
        rintro v hv
        obtain rfl := Option.some.inj hv
        exact ⟨hstart.trans_lt hlater, hnano⟩

lemma le_earliest (last : Instant) (deadline : Option Int) (now : Instant) :
    last ≤ earliest last deadline now := by
  unfold earliest
  split
  · split_ifs with h
    · exact h.le
    · exact le_rfl
  · exact le_rfl

/-- A missed fire is a whole second later than the last launch. -/
theorem Expr.decision_missed_later {e : Expr} (he : e.Steps) {cap : Nat} {last now t : Instant}
    {deadline : Option Int} {d : Decision} (h : e.decision cap last deadline now = .ok d)
    (hm : d.missed = some t) : last < t ∧ t.nano = 0 := by
  unfold Expr.decision at h
  simp only [bind, Except.bind] at h
  split_ifs at h
  · cases hu : upcoming e now with
    | error _ => simp [hu] at h
    | ok next =>
      rw [hu] at h
      obtain rfl := Except.ok.inj h
      simp at hm
  · split at h
    · simp at h
    · rename_i missed hmissed
      cases hu : upcoming e now with
      | error _ => simp [hu] at h
      | ok next =>
        rw [hu] at h
        obtain rfl := Except.ok.inj h
        dsimp only at hm
        subst hm
        exact latestMissed_later he (le_earliest last deadline now) (by simp) hmissed

end Timetable.Cron

namespace Timetable.Pass

theorem judge_missed_later {cap : Nat} {s : Schedule} {now t : Instant} {d : Cron.Decision}
    {deadline : Option Int} (h : judge cap s now = .decided d deadline) (hm : d.missed = some t) :
    s.status.lastScheduled.getD s.metadata.created < t ∧ t.nano = 0 := by
  unfold judge at h
  split at h
  · simp at h
  · simp at h
  · rename_i expr hexpr
    split at h
    · simp at h
    · rename_i dl hdl
      split at h
      · simp at h
      · simp at h
      · rename_i d' hd
        obtain ⟨rfl, rfl⟩ := Verdict.decided.inj h
        exact Cron.Expr.decision_missed_later (Cron.Expr.steps_of_parse hexpr) hd hm

end Timetable.Pass
