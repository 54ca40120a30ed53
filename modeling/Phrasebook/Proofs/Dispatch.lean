import Mathlib
import Phrasebook.Dispatch
import Phrasebook.Proofs.Outcome
import Phrasebook.Template

/-!
# Dispatch does not depend on the schedule

* Cut into chunks, the jobs are still all there, in their order, and there are no more chunks than
  workers.
* The messages sent and the jobs waiting are at every moment those of the whole run.
* As the names are distinct, the messages sorted by name stand in the order of the jobs.
* A worker that stops leaves a job that overflows, and so does the whole run.
* So the answer is that of the intents taken one after the other, whichever worker is faster.

Mathlib is imported whole: the runs at the end are evaluated with equations from all over it.
-/
namespace Phrasebook

namespace Words

/-- The `i`-th of the 64-bit values that the words spell from the start. -/
def pair (w : Words) (i : Nat) : UInt64 := (next64 { w with taken := w.taken + 2 * i }).1

theorem pair_succ (w : Words) (i : Nat) : w.pair (i + 1) = w.next64.2.pair i := by
  have same : w.taken + 2 * (i + 1) = w.taken + 1 + 1 + 2 * i := by omega
  simp only [pair, next64, next, same]

end Words

namespace Dispatch

theorem workersFor_pos (processors jobs : Nat) : 0 < workersFor processors jobs := by
  unfold workersFor
  omega

variable {α : Type}

theorem chunks_flatten (size : Nat) (l : List α) : (chunks size l).flatten = l := by
  fun_induction chunks size l with
  | case1 => rfl
  | case2 x rest ih => rw [List.flatten_cons, ih, List.cons_append, List.take_append_drop]

theorem chunks_length_le {size : Nat} (l : List α) {k : Nat} (fits : l.length ≤ size * k) :
    (chunks size l).length ≤ k := by
  fun_induction chunks size l generalizing k with
  | case1 => exact Nat.zero_le k
  | case2 x rest ih =>
    cases k with
    | zero => simp at fits
    | succ k =>
      rw [Nat.mul_succ, List.length_cons] at fits
      exact Nat.succ_le_succ (ih (by rw [List.length_drop]; omega))

theorem le_share_mul (jobs : Nat) {workers : Nat} (some_worker : 0 < workers) :
    jobs ≤ share jobs workers * workers := by
  have bound : jobs + workers - 1 < share jobs workers * workers + workers :=
    Nat.lt_div_mul_add some_worker
  omega

theorem start_queues_le {workers : Nat} (some_worker : 0 < workers) (jobs : List Job) :
    (start workers jobs).queues.length ≤ workers :=
  chunks_length_le jobs (le_share_mul jobs.length some_worker)

end Dispatch

namespace Generator

open Dispatch

theorem seeds_eq_mapIdx (names : List String) (w : Words) :
    seeds w names = names.mapIdx fun i name => (name, w.pair i) := by
  induction names generalizing w with
  | nil => rfl
  | cons name rest ih =>
    rw [List.mapIdx_cons]
    simp only [w.pair_succ]
    exact congrArg (_ :: ·) (ih w.next64.2)

theorem seeds_names (names : List String) (w : Words) : (seeds w names).map Prod.fst = names := by
  induction names generalizing w with
  | nil => rfl
  | cons name rest ih => exact congrArg (name :: ·) (ih w.next64.2)

theorem jobs_ordered (g : Generator) (entropy : UInt64) :
    (g.jobs entropy).Pairwise fun a b => a.1 < b.1 := by
  have names : ((g.jobs entropy).map Prod.fst).Pairwise (· < ·) := by
    rw [jobs, seeds_names]
    exact List.pairwise_map.mpr g.store.intents.sorted
  exact List.pairwise_map.mp names

/-- What a job is for and what it comes to. -/
def performed (g : Generator) (job : Job) : String × Answer (List Example) :=
  (job.1, g.perform job)

/-- The same of a job whose message was sent. -/
def told (m : Message) : String × Answer (List Example) := (m.1, .of m.2)

theorem generateAll_eq (g : Generator) (entropy : UInt64) : g.generateAll entropy =
    .all (((g.jobs entropy).map g.performed).map fun m => m.2.map (m.1, ·)) := by
  rw [List.map_map]
  rfl

variable {g : Generator} {entropy : UInt64}

theorem generateAll_eq_overflow :
    g.generateAll entropy = .overflow ↔ ∃ job ∈ g.jobs entropy, g.perform job = .overflow := by
  simp only [generateAll_eq, Answer.all_eq_overflow, List.mem_map, exists_exists_and_eq_and,
    Answer.map_eq_overflow, performed]

/-- An answer has the examples of every job. -/
theorem generateAll_eq_ok {results : List (String × List Example)}
    (ok : g.generateAll entropy = .ok results) :
    (g.jobs entropy).map g.performed = results.map fun r => (r.1, .ok r.2) := by
  rw [generateAll_eq, Answer.all_eq_ok] at ok
  generalize (g.jobs entropy).map g.performed = answers at ok
  induction answers generalizing results with
  | nil =>
    rw [List.map_nil, eq_comm, List.map_eq_nil_iff] at ok
    rw [ok, List.map_nil]
  | cons m rest ih =>
    cases results with
    | nil => cases ok
    | cons r others =>
      obtain ⟨own, later⟩ := List.cons.inj ok
      obtain ⟨examples, there, rfl⟩ := Answer.map_eq_ok.mp own
      rw [List.map_cons, ← ih later, ← there]

theorem names_of_generateAll {results : List (String × List Example)}
    (ok : g.generateAll entropy = .ok results) :
    results.map Prod.fst = g.store.intentNames := by
  have names := congrArg (List.map Prod.fst) (generateAll_eq_ok ok)
  rw [List.map_map, List.map_map] at names
  exact names.symm.trans (seeds_names ..)

theorem eq_of_name {α : Type} {l : List (String × α)} (ordered : l.Pairwise fun a b => a.1 < b.1)
    {a b : String × α} (ha : a ∈ l) (hb : b ∈ l) (same : a.1 = b.1) : a = b := by
  refine List.Pairwise.forall_of_forall_of_flip (R := fun a b : String × α => a.1 = b.1 → a = b)
    (fun _ _ _ => rfl) (ordered.imp ?_) (ordered.imp ?_) ha hb same
  · exact fun lt same => absurd lt (same ▸ String.lt_irrefl _)
  · exact fun lt same => absurd lt (same ▸ String.lt_irrefl _)

/-- Messages in any order are sorted back into that of the jobs, by names alone. -/
theorem mergeSort_messages {channel : List Message}
    (all : (channel.map told).Perm ((g.jobs entropy).map g.performed)) :
    (channel.mergeSort fun a b => decide (a.1 ≤ b.1)).map told =
      (g.jobs entropy).map g.performed := by
  have ordered : ((g.jobs entropy).map g.performed).Pairwise fun a b => a.1 < b.1 :=
    List.pairwise_map.mpr (g.jobs_ordered entropy)
  have sorted : (channel.mergeSort fun a b => decide (a.1 ≤ b.1)).Pairwise fun a b => a.1 ≤ b.1 :=
    (List.pairwise_mergeSort (fun a b c => by simpa using String.le_trans)
      (fun a b => by simpa using String.le_total a.1 b.1) channel).imp of_decide_eq_true
  have sent := ((channel.mergeSort_perm fun a b => decide (a.1 ≤ b.1)).map told).trans all
  refine sent.eq_of_pairwise ?_ (List.pairwise_map.mpr sorted) (ordered.imp Std.le_of_lt)
  intro a b ha hb le ge
  exact eq_of_name ordered (sent.mem_iff.mp ha) hb (String.le_antisymm le ge)

theorem collect_messages {channel : List Message}
    (all : (channel.map told).Perm ((g.jobs entropy).map g.performed)) :
    .of ((channel.mergeSort fun a b => decide (a.1 ≤ b.1)).mapM fun m => m.2.map (m.1, ·)) =
      g.generateAll entropy := by
  have outcomes : ((channel.mergeSort fun a b => decide (a.1 ≤ b.1)).map told).map
        (fun m => m.2.map (m.1, ·)) =
      ((channel.mergeSort fun a b => decide (a.1 ≤ b.1)).map fun m => m.2.map (m.1, ·)).map
        Answer.of := by
    rw [List.map_map, List.map_map]
    exact List.map_congr_left fun m _ => Answer.map_of (m.1, ·) m.2
  rw [generateAll_eq, ← mergeSort_messages all, outcomes, Answer.all_of, List.mapM_map]
  rfl

/-- What was told of the jobs that are done, and what the waiting ones will come to. -/
theorem Works.messages {d later : Dispatch} (step : g.Works d later) :
    (later.channel.map told ++ later.queues.flatten.map g.performed).Perm
      (d.channel.map told ++ d.queues.flatten.map g.performed) := by
  obtain ⟨before, after, job, rest, channel, outcome, performs⟩ := step
  have own : told (job.1, outcome) = g.performed job := by rw [told, performed, performs]
  simp only [List.flatten_append, List.flatten_cons, List.map_append, List.map_cons, List.map_nil,
    own, List.append_assoc, List.cons_append, List.nil_append]
  exact (List.perm_middle.symm).append_left _

theorem Reaches.messages {d later : Dispatch} (run : g.Reaches d later) :
    (later.channel.map told ++ later.queues.flatten.map g.performed).Perm
      (d.channel.map told ++ d.queues.flatten.map g.performed) := by
  induction run with
  | rest => exact .refl _
  | step step _ ih => exact ih.trans step.messages

theorem Reaches.queues {d later : Dispatch} (run : g.Reaches d later) :
    later.queues.length = d.queues.length := by
  induction run with
  | rest => rfl
  | step step _ ih =>
    rw [ih]
    obtain ⟨before, after, job, rest, channel, outcome, performs⟩ := step
    simp

theorem Works.fewer {d later : Dispatch} (step : g.Works d later) :
    later.queues.flatten.length < d.queues.flatten.length := by
  obtain ⟨before, after, job, rest, channel, outcome, performs⟩ := step
  simp only [List.flatten_append, List.flatten_cons, List.length_append, List.length_cons]
  omega

/-- A worker whose next job does not overflow can always do it. -/
theorem exists_works (g : Generator) {d : Dispatch} (busy : ¬g.Done d) :
    ∃ later, g.Works d later := by
  obtain ⟨queues, channel⟩ := d
  simp only [Done, not_forall] at busy
  obtain ⟨queue, member, job, next, answered⟩ := busy
  obtain ⟨before, after, rfl⟩ := List.append_of_mem member
  obtain ⟨rest, rfl⟩ := List.head?_eq_some_iff.mp next
  obtain ⟨outcome, performs⟩ := Answer.exists_of answered
  exact ⟨_, .finish before after job rest channel outcome performs⟩

theorem exists_done (g : Generator) (d : Dispatch) : ∃ final, g.Reaches d final ∧ g.Done final := by
  by_cases done : g.Done d
  · exact ⟨d, .rest d, done⟩
  · obtain ⟨later, step⟩ := exists_works g done
    obtain ⟨final, run, done⟩ := exists_done g later
    exact ⟨final, .step step run, done⟩
termination_by d.queues.flatten.length
decreasing_by exact step.fewer

/-- Where no worker goes on, a job that is left overflows, and without one every message is there. -/
theorem collect_done {d : Dispatch} (done : g.Done d)
    (all : (d.channel.map told ++ d.queues.flatten.map g.performed).Perm
      ((g.jobs entropy).map g.performed)) : d.collect = g.generateAll entropy := by
  unfold collect
  split
  · next empty =>
    have nothing : d.queues.flatten = [] := by
      simpa [List.flatten_eq_nil_iff] using empty
    rw [nothing, List.map_nil, List.append_nil] at all
    exact collect_messages all
  · next some_left =>
    simp only [List.all_eq_true, List.isEmpty_iff, not_forall] at some_left
    obtain ⟨queue, member, left⟩ := some_left
    obtain ⟨job, rest, rfl⟩ := List.exists_cons_of_ne_nil left
    have waiting : job ∈ d.queues.flatten :=
      List.mem_flatten.mpr ⟨_, member, List.mem_cons_self⟩
    have asked := all.mem_iff.mp (List.mem_append_right _ (List.mem_map_of_mem waiting))
    obtain ⟨job', asked', same⟩ := List.mem_map.mp asked
    have overflows : g.perform job' = .overflow :=
      (Prod.mk.inj same).2.trans (done _ member job rfl)
    exact (generateAll_eq_overflow.mpr ⟨job', asked', overflows⟩).symm

/-- **All intents are answered as if they were taken one after the other**, however many workers
there are and whichever of them is faster. No intent is lost or taken twice on the way, and the
workers come to an end. -/
theorem dispatch_answers {g : Generator} {entropy : UInt64} {workers : Nat} {d : Dispatch}
    (some_worker : 0 < workers) (run : g.Reaches (start workers (g.jobs entropy)) d) :
    d.queues.length ≤ workers ∧
      (d.channel.map Prod.fst ++ d.queues.flatten.map Prod.fst).Perm g.store.intentNames ∧
      (∃ final, g.Reaches d final ∧ g.Done final) ∧
      (g.Done d → d.collect = g.generateAll entropy ∧
        ∀ answer, d.collect = .ok answer → answer.map Prod.fst = g.store.intentNames) ∧
      g.generateAll entropy =
        .all ((g.store.intentNames.mapIdx fun i name =>
          (name, (g.settings.words entropy).pair i)).map
            fun job => (g.generate job.1 none (.seeded job.2)).1.map (job.1, ·)) := by
  have all : (d.channel.map told ++ d.queues.flatten.map g.performed).Perm
      ((g.jobs entropy).map g.performed) := by
    have kept := run.messages
    rwa [start, chunks_flatten, List.map_nil, List.nil_append] at kept
  refine ⟨run.queues ▸ start_queues_le some_worker _, ?_, exists_done g d, fun done => ?_, ?_⟩
  · have mapped := all.map Prod.fst
    simp only [List.map_append, List.map_map] at mapped
    exact mapped.trans (.of_eq (seeds_names ..))
  · have answers := collect_done done all
    exact ⟨answers, fun answer ok => names_of_generateAll (answers ▸ ok)⟩
  · rw [generateAll, seeds_eq_mapIdx]

/-- Two workers, of which the second is the faster one. -/
theorem dispatch_answers_greeting : ∃ (g : Generator) (d : Dispatch),
    Template.read {} "%[ask]\n  why\n%[greeting]\n  hello\n" = .ok g.store ∧
      g.Reaches (start (workersFor 8 (g.jobs 7).length) (g.jobs 7)) d ∧ g.Done d ∧
      d.channel.map Prod.fst = ["greeting", "ask"] ∧ d.collect = g.generateAll 7 := by
  let ask : Definition := ⟨"ask", .intent, false, [⟨none, none, [⟨[.word "why"], none⟩]⟩]⟩
  let greeting : Definition :=
    ⟨"greeting", .intent, false, [⟨none, none, [⟨[.word "hello"], none⟩]⟩]⟩
  let g : Generator :=
    ⟨⟨∅, ∅, ⟨[("ask", ask), ("greeting", greeting)], by decide⟩⟩, {}⟩
  let first : Job := ("ask", (g.settings.words 7).pair 0)
  let second : Job := ("greeting", (g.settings.words 7).pair 1)
  let why : List Example := [⟨"ask", "why", []⟩]
  let hello : List Example := [⟨"greeting", "hello", []⟩]
  let d : Dispatch := ⟨[[], []], [("greeting", .ok hello), ("ask", .ok why)]⟩
  have loaded : Template.read {} "%[ask]\n  why\n%[greeting]\n  hello\n" = .ok g.store := by
    cbv
  have jobs : g.jobs 7 = [first, second] := seeds_eq_mapIdx ["ask", "greeting"] _
  have shared : start (workersFor 8 (g.jobs 7).length) (g.jobs 7) = ⟨[[first], [second]], []⟩ := by
    simp [jobs, start, workersFor, share, chunks]
  have asked (w : Words) : (g.generate "ask" none w).1 = .of (.ok why) := by cbv
  have greeted (w : Words) : (g.generate "greeting" none w).1 = .of (.ok hello) := by cbv
  have run : g.Reaches (start (workersFor 8 (g.jobs 7).length) (g.jobs 7)) d := by
    rw [shared]
    exact .step (.finish [[first]] [] second [] [] (.ok hello) (greeted _))
      (.step (.finish [] [[]] first [] _ (.ok why) (asked _)) (.rest d))
  have done : g.Done d := by simp [Done, d]
  obtain ⟨-, -, -, answer, -⟩ := dispatch_answers (workersFor_pos 8 _) run
  exact ⟨g, d, loaded, run, done, rfl, (answer done).1⟩

end Generator
end Phrasebook
