import Timetable.Proofs.Controller.Aborting
import Timetable.Proofs.Controller.Lateness
import Timetable.Proofs.Cron.MissedFires

/-!
# Notices of passes

A pass can make a notice that its fire came past the deadline, but it never does: the deadline left out such fires
before. That holds whatever the store answers between the calls of the pass, and whatever the clock shows.
-/

namespace Timetable

/-- When a call is made: the stamp for what it creates, the store that serves it, and the clock. -/
structure Moment where
  stamp : Stamp
  store : Store
  clock : Instant

namespace Client
variable {α β : Type} {P : Notice → Prop} {c : Client α} {records : List Record}

/-- Whatever is answered, and whatever time the clock shows, all notices of a client have a property. -/
def Notes (P : Notice → Prop) : Client α → Prop
  | done _ => True
  | listItems next => ∀ items, (next items).Notes P
  | writeScheduleStatus _ next => ∀ r, (next r).Notes P
  | createItem _ next => ∀ r, (next r).Notes P
  | writeItemStatus _ next => ∀ r, (next r).Notes P
  | deleteItem _ next => ∀ r, (next r).Notes P
  | readClock next => ∀ now : Instant, now.Representable → (next now).Notes P
  | note r next => P r.notice ∧ next.Notes P

lemma Notes.andThen {f : α → Client β} (h : c.Notes P) (hf : ∀ a, (f a).Notes P) : (c.andThen f).Notes P := by
  induction c with
  | done a => exact hf a
  | listItems next ih => exact fun items => ih items (h items)
  | writeScheduleStatus x next ih => exact fun r => ih r (h r)
  | createItem w next ih => exact fun r => ih r (h r)
  | writeItemStatus w next ih => exact fun r => ih r (h r)
  | deleteItem key next ih => exact fun r => ih r (h r)
  | readClock next ih => exact fun now hnow => ih now (h now hnow)
  | note r next ih => exact ⟨h.1, ih h.2⟩

/-- Makes the next call at a moment. -/
def stepAt (state : Client α × List Record) (m : Moment) : Client α × List Record :=
  let (rest, site) := state.1.step m.stamp ⟨m.store, m.clock, state.2⟩
  (rest, site.records)

/-- Makes calls at moments that have nothing to do with each other, since others may use the store in between. -/
def amid (moments : List Moment) (c : Client α) (records : List Record) : Client α × List Record :=
  moments.foldl stepAt (c, records)

/-- The next call leaves a client with the property, and adds no other notices. -/
lemma Notes.stepAt (h : c.Notes P) (hrecords : ∀ r ∈ records, P r.notice) {m : Moment} (hm : m.clock.Representable) :
    (Client.stepAt (c, records) m).1.Notes P ∧ ∀ r ∈ (Client.stepAt (c, records) m).2, P r.notice := by
  cases c with
  | done a => exact ⟨h, hrecords⟩
  | listItems next => exact ⟨h _, hrecords⟩
  | writeScheduleStatus x next => exact ⟨h _, hrecords⟩
  | createItem w next => exact ⟨h _, hrecords⟩
  | writeItemStatus w next => exact ⟨h _, hrecords⟩
  | deleteItem key next => exact ⟨h _, hrecords⟩
  | readClock next => exact ⟨h _ hm, hrecords⟩
  | note r next => exact ⟨h.2, List.forall_mem_cons.2 ⟨h.1, hrecords⟩⟩

/-- However far a client gets, its notices have the property. -/
theorem Notes.amid (h : c.Notes P) (hrecords : ∀ r ∈ records, P r.notice) {moments : List Moment}
    (hclock : ∀ m ∈ moments, m.clock.Representable) : ∀ r ∈ (c.amid moments records).2, P r.notice := by
  induction moments generalizing c records with
  | nil => exact hrecords
  | cons m moments ih =>
    obtain ⟨hrest, hmore⟩ := h.stepAt hrecords (hclock m List.mem_cons_self)
    exact ih hrest hmore fun m' hm' => hclock m' (List.mem_cons_of_mem m hm')

end Client

namespace Pass

/-- The notice is not about a fire past its deadline. -/
def Punctual (n : Notice) : Prop :=
  ∀ fire, n ≠ .pastDeadline fire

lemma Punctual.reason {n : Notice} (h : Punctual n) : n.reason ≠ "MissSchedule" := by
  cases n with
  | pastDeadline fire => exact absurd rfl (h fire)
  | unschedulable cause => cases cause <;> simp [Notice.reason]
  | _ => simp [Notice.reason]

lemma punctual_of_refused {cap : Nat} {s : Schedule} {now : Instant} {n : Notice} (h : judge cap s now = .refused n) :
    Punctual n := by
  rintro fire rfl
  obtain hreason | hreason := reason_of_refused h
  · simp [Notice.reason] at hreason
  · simp [Notice.reason] at hreason

variable {cap : Nat} {key : Key} {s : Schedule} {active : List WorkItem} {fire now : Instant}
  {deadline : Option Int} {wait : Action}

lemma noteAll_notes {α : Type} {notices : List Notice} {f : Unit → Client α} (hall : ∀ n ∈ notices, Punctual n)
    (hf : (f ()).Notes Punctual) : ((noteAll key notices).andThen f).Notes Punctual := by
  induction notices with
  | nil => exact hf
  | cons n notices ih =>
    obtain ⟨hn, hrest⟩ := List.forall_mem_cons.1 hall
    exact ⟨hn, ih hrest⟩

lemma writeStatus_notes (key : Key) (view : View) : (writeStatus key view).Notes Punctual := by
  refine noteAll_notes (fun n hn => ?_) ?_
  · obtain ⟨w, -, rfl⟩ := List.mem_map.1 hn
    exact nofun
  · dsimp only
    split_ifs
    · trivial
    · intro r
      cases r with
      | ok written => trivial
      | error e => exact ⟨nofun, trivial⟩

lemma deleteChild_notes (key : Key) (w : WorkItem) : (deleteChild key w).Notes Punctual := by
  intro r
  dsimp only
  split
  · exact ⟨nofun, trivial⟩
  · trivial
  · exact ⟨nofun, trivial⟩

lemma deleteAll_notes (key : Key) (ws : List WorkItem) : (deleteAll key ws).Notes Punctual := by
  induction ws with
  | nil => trivial
  | cons w ws ih => exact (deleteChild_notes key w).andThen fun _ => ih

lemma launch_notes (key : Key) (s : Schedule) (fire : Instant) (wait : Action) :
    (launch key s fire wait).Notes Punctual := by
  unfold launch
  split
  · exact ⟨nofun, trivial⟩
  · intro r
    dsimp only
    split
    · exact ⟨nofun, trivial⟩
    · trivial
    · exact ⟨nofun, trivial⟩

lemma serve_notes (hlate : isLate fire deadline now = false) :
    (serve key s active fire deadline now wait).Notes Punctual := by
  unfold serve
  rw [if_neg (Bool.eq_false_iff.1 hlate)]
  split
  · exact ⟨nofun, trivial⟩
  · exact (deleteAll_notes key _).andThen fun _ => launch_notes key s fire wait
  · exact launch_notes key s fire wait

lemma schedule_notes (cap : Nat) (key : Key) (s : Schedule) (active : List WorkItem) :
    (schedule cap key s active).Notes Punctual := by
  unfold schedule
  split_ifs
  · trivial
  · intro now hnow
    dsimp only
    cases hjudge : judge cap s now with
    | aborted => trivial
    | refused n => exact ⟨punctual_of_refused hjudge, trivial⟩
    | decided d deadline =>
      obtain ⟨missed, next⟩ := d
      cases missed with
      | none => trivial
      | some fire => exact serve_notes (not_isLate hnow hjudge)

lemma run_notes (cap : Nat) (key : Key) (view : Option View) : (run cap key view).Notes Punctual := by
  cases view with
  | none => trivial
  | some view =>
    refine (writeStatus_notes key view).andThen fun r => ?_
    cases r with
    | error e => trivial
    | ok s => exact (deleteAll_notes key _).andThen fun _ => schedule_notes cap key s _

/-- The time at which a missed fire gets too old is still to come, if the calendar has it at all. So no pass makes a
notice that a fire came too late, whatever happens between its calls. -/
theorem never_past_deadline :
    (∀ (text : String) (e : Cron.Expr) (s : Schedule) (span : Int) (cap : Nat) (last now fire : Instant)
        (d : Cron.Decision), Cron.Expr.parse text = .ok e → s.startingDeadline = .ok (some span) → now.Representable →
      e.decision cap last (some span) now = .ok d → d.missed = some fire →
        ∀ expiry, fire.add? span = some expiry → now < expiry) ∧
      ∀ (cap : Nat) (key : Key) (view : Option View) (moments : List Moment),
        (∀ m ∈ moments, m.clock.Representable) → ∀ r ∈ ((run cap key view).amid moments []).2,
          r.notice.reason ≠ "MissSchedule" := by
  constructor
  · intro text e s span cap last now fire d hparse hdeadline hnow hd hm expiry hexpiry
    obtain ⟨-, rfl⟩ := Instant.add?_eq_some_iff.1 hexpiry
    exact Cron.Expr.lt_shift_of_missed (Cron.Expr.steps_of_parse hparse) hnow
      (Schedule.startingDeadline_nonneg hdeadline) hd hm
  · intro cap key view moments hclock r hr
    exact ((run_notes cap key view).amid (fun _ h => absurd h List.not_mem_nil) hclock r hr).reason

/-- A schedule that gives its runs half a minute and a second. -/
def brief : Schedule :=
  { declared "* * * * *" with spec := { (declared "* * * * *").spec with startingDeadline := some 31 } }

/-- A store with the schedule, half a minute after a fire. -/
def briefMoment : Moment :=
  ⟨⟨.ofNat 2, .ofSecond 90⟩, Store.empty.serve (.createSchedule ⟨.ofNat 1, .ofSecond 0⟩ brief), .ofSecond 90⟩

/-- The fire is missed a second before its deadline, and the pass launches for it. -/
theorem never_past_deadline_brief :
    ∃ e next, Cron.Expr.parse "* * * * *" = .ok e ∧ brief.startingDeadline = .ok (some 31000000000) ∧
      e.decision 100 (.ofSecond 0) (some 31000000000) (.ofSecond 90) = .ok ⟨some (.ofSecond 60), next⟩ ∧
      (Instant.ofSecond 60).add? 31000000000 = some (.ofSecond 91) ∧ Instant.ofSecond 90 < .ofSecond 91 ∧
      (((run 100 brief.metadata.key (some ⟨brief, []⟩)).amid (List.replicate 5 briefMoment) []).2.map
        (·.notice.reason)) = ["SuccessfulCreate"] ∧
      ∀ r ∈ ((run 100 brief.metadata.key (some ⟨brief, []⟩)).amid (List.replicate 5 briefMoment) []).2,
        r.notice.reason ≠ "MissSchedule" := by
  have hparse : Cron.Expr.parse "* * * * *" = .ok Cron.everyMinute := by decide +kernel
  have hdeadline : brief.startingDeadline = .ok (some 31000000000) := by decide +kernel
  have hclock : (Instant.ofSecond 90).Representable := by
    unfold Instant.Representable
    decide +kernel
  have hd : Cron.everyMinute.decision 100 (.ofSecond 0) (some 31000000000) (.ofSecond 90) =
      .ok ⟨some (.ofSecond 60), .ofSecond 120⟩ := by decide +kernel
  have hexpiry : (Instant.ofSecond 60).add? 31000000000 = some (.ofSecond 91) := by decide +kernel
  refine ⟨_, _, hparse, hdeadline, hd, hexpiry, ?_, by decide +kernel, ?_⟩
  · exact never_past_deadline.1 _ _ _ _ _ _ _ _ _ hparse hdeadline hclock hd rfl _ hexpiry
  · refine never_past_deadline.2 100 _ _ _ fun m hm => ?_
    obtain rfl := List.eq_of_mem_replicate hm
    exact hclock

end Pass

end Timetable
