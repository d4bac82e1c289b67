import SampleData.Proofs.Streams
import Mathlib.Data.List.ReduceOption

/-!
# Ways to use a generator

Records can be taken from a generator one at a time, many at once, or from a stream that is given up
before or after its end. However these are mixed, what comes out is one and the same row: every use
goes on where the one before it stopped, and what a stream was not asked for is not drawn.

* `Use`, `Generator.useAll`: the uses that are made of a generator, one after the other.
* `Generator.many_add`: a row of records may be cut anywhere.
* `RecordStream.pull_answers`: what a stream answers, asked any number of times.
* `Generator.useAll_eq_many`: all uses together give the records of one.
-/

namespace SampleData

/-! ## Uses -/

/-- A use that is made of a generator. -/
inductive Use where
  /-- The next record. -/
  | one
  /-- Many records at once. -/
  | many (n : Nat)
  /-- A stream of so many records, of which no more than the first `taken` are asked for. -/
  | stream (length taken : Nat)
deriving DecidableEq, Repr

/-- How many records come of a use. -/
def Use.count : Use → Nat
  | one => 1
  | many n => n
  | stream length taken => min length taken

namespace Generator

/-- What comes of records that are drawn after others: they are drawn from the generator as the
others leave it, and not at all if the others fail. -/
def andThen (x : Except DrawFault (List Record) × Generator)
    (draw : Generator → Except DrawFault (List Record) × Generator) :
    Except DrawFault (List Record) × Generator :=
  match x with
  | (.error e, g) => (.error e, g)
  | (.ok rs, g) => ((draw g).1.map (rs ++ ·), (draw g).2)

/-- Makes a use of a generator. -/
def use (clock : Clock) (g : Generator) : Use → Except DrawFault (List Record) × Generator
  | .one => ((g.next clock).1.map ([·]), (g.next clock).2)
  | .many n => g.many clock n
  | .stream length taken =>
    let (x, s) := (RecordStream.of g length).take clock taken
    (x, s.generator)

/-- Makes uses of a generator, one after the other, each at its own time. A use that fails is the
last one. -/
def useAll (g : Generator) : List (Clock × Use) → Except DrawFault (List Record) × Generator
  | [] => (.ok [], g)
  | (clock, u) :: rest => andThen (g.use clock u) fun g => g.useAll rest

/-- How many records come of uses. -/
def total : List (Clock × Use) → Nat
  | [] => 0
  | u :: uses => u.2.count + total uses

/-! ## Rows of records -/

@[simp] theorem andThen_ok (rs : List Record) (g : Generator)
    (draw : Generator → Except DrawFault (List Record) × Generator) :
    andThen (.ok rs, g) draw = ((draw g).1.map (rs ++ ·), (draw g).2) := rfl

/-- Nothing before a row of records changes nothing. -/
@[simp] theorem andThen_nil (g : Generator)
    (draw : Generator → Except DrawFault (List Record) × Generator) :
    andThen (.ok [], g) draw = draw g := by
  rcases hdraw : draw g with ⟨x, g'⟩
  cases x <;> simp [hdraw, Except.map]

/-- Three rows of records can be grouped either way. -/
theorem andThen_assoc (x : Except DrawFault (List Record) × Generator)
    (draw draw' : Generator → Except DrawFault (List Record) × Generator) :
    andThen (andThen x draw) draw' = andThen x fun g => andThen (draw g) draw' := by
  obtain ⟨x, g⟩ := x
  cases x with
  | error e => rfl
  | ok rs =>
      rw [andThen_ok, andThen_ok]
      rcases hfirst : draw g with ⟨y, g₁⟩
      cases y with
      | error e => rfl
      | ok rs' =>
          dsimp only [Except.map]
          rw [andThen_ok, andThen_ok]
          rcases hsecond : draw' g₁ with ⟨z, g'⟩
          cases z with
          | error e => rfl
          | ok rs'' => simp [Except.map]

/-- A row of records is the first one and the rest. -/
theorem many_succ_eq_andThen (g : Generator) (c : Clock) (n : Nat) :
    g.many c (n + 1) = andThen ((g.next c).1.map ([·]), (g.next c).2)
      fun g₁ => g₁.many (c.after g.plan.size) n := by
  rw [many_succ]
  rcases hfirst : g.next c with ⟨first, g₁⟩
  cases first with
  | error e => rfl
  | ok r =>
      dsimp only [Except.map]
      rw [andThen_ok]
      rcases hrest : g₁.many (c.after g.plan.size) n with ⟨rest, g'⟩
      cases rest <;> rfl

/-- One record is a row of one. -/
@[simp] theorem many_one (g : Generator) (c : Clock) :
    g.many c 1 = ((g.next c).1.map ([·]), (g.next c).2) := by
  rw [many_succ]
  rcases g.next c with ⟨first, g₁⟩
  cases first <;> rfl

/-- Drawing many records leaves the plan. -/
@[simp] theorem plan_many (g : Generator) (c : Clock) (n : Nat) :
    (g.many c n).2.plan = g.plan := rfl

/-- **A row of records may be cut anywhere**: what comes behind the cut is drawn from the generator
as it is left there, at the times that are left. -/
theorem many_add (g : Generator) (c : Clock) (m n : Nat) :
    g.many c (m + n) =
      andThen (g.many c m) fun g₁ => g₁.many (c.after (m * g.plan.size)) n := by
  induction m generalizing g c with
  | zero =>
      have hclock : c.after (0 * g.plan.size) = c := by
        funext i
        simp [Clock.after]
      rw [hclock, Nat.zero_add]
      exact (andThen_nil g fun g => g.many c n).symm
  | succ m ih =>
      rw [Nat.succ_add, many_succ_eq_andThen, many_succ_eq_andThen, andThen_assoc]
      rcases hfirst : g.next c with ⟨first, g₁⟩
      have hplan : g₁.plan = g.plan := by rw [← plan_next (g := g) c, hfirst]
      have hclock : (c.after g.plan.size).after (m * g₁.plan.size) =
          c.after ((m + 1) * g.plan.size) := by
        funext i
        rw [Clock.after, Clock.after, Clock.after, hplan, Nat.succ_mul]
        congr 1
        omega
      cases first with
      | error e => rfl
      | ok r =>
          dsimp only [Except.map]
          rw [andThen_ok, andThen_ok, ih, hclock]

end Generator

/-! ## Streams -/

namespace RecordStream

/-- What a stream answers when it is asked a number of times, whether there is anything left of it
or not. -/
def pull (clock : Clock) (s : RecordStream) :
    Nat → Except DrawFault (List (Option Record)) × RecordStream
  | 0 => (.ok [], s)
  | k + 1 =>
    match s.next? clock with
    | (.error e, s) => (.error e, s)
    | (.ok r, s) =>
      ((s.pull (clock.after s.generator.plan.size) k).1.map (r :: ·),
        (s.pull (clock.after s.generator.plan.size) k).2)

/-- A stream of which nothing is left answers so for ever, and stays as it is. -/
theorem pull_of_exhausted {s : RecordStream} (h : s.remaining = 0) (c : Clock) (k : Nat) :
    s.pull c k = (.ok (List.replicate k none), s) := by
  induction k generalizing c with
  | zero => rfl
  | succ k ih =>
      have hnext : s.next? c = (.ok none, s) := by
        unfold next?
        rw [h]
      rw [pull, hnext]
      dsimp only
      rw [ih]
      rfl

/-- What a stream gives are the records among its answers. -/
theorem take_eq_pull (s : RecordStream) (c : Clock) (k : Nat) :
    s.take c k = ((s.pull c k).1.map List.reduceOption, (s.pull c k).2) := by
  induction k generalizing s c with
  | zero => rfl
  | succ k ih =>
      rw [take, pull]
      rcases hnext : s.next? c with ⟨answer, s₁⟩
      cases answer with
      | error e => rfl
      | ok r =>
          cases r with
          | none =>
              -- nothing is left, so the answers that are not asked for are empty
              have hleft : s₁.remaining = 0 := by
                unfold next? at hnext
                split at hnext
                · next hzero =>
                  obtain ⟨-, rfl⟩ := Prod.mk.inj hnext
                  exact hzero
                · split at hnext <;> cases hnext
              dsimp only
              rw [pull_of_exhausted hleft]
              simp [Except.map, List.reduceOption]
          | some r =>
              dsimp only
              rw [ih]
              rcases s₁.pull (c.after s₁.generator.plan.size) k with ⟨answers, s'⟩
              cases answers <;> rfl

/-- What a stream of `n` records answers when it is asked `k` times, and what is left of it: at
first the next records of its generator, and nothing once all are given. Records that are not asked
for are not drawn. -/
structure Answers (g : Generator) (c : Clock) (n k : Nat)
    (r : Except DrawFault (List (Option Record)) × RecordStream) : Prop where
  answers : r.1 = (g.many c (min n k)).1.map fun rs => rs.map some ++ List.replicate (k - n) none
  generator : r.2.generator = (g.many c (min n k)).2
  remaining : r.1.isOk → r.2.remaining = n - min n k

/-- **A stream, asked any number of times.** -/
theorem pull_answers (g : Generator) (c : Clock) (n k : Nat) :
    Answers g c n k ((RecordStream.of g n).pull c k) := by
  induction k generalizing g c n with
  | zero =>
      refine ⟨?_, by rw [Nat.min_zero]; rfl, fun _ => by simp [pull, of]⟩
      rw [Nat.min_zero, Nat.zero_sub, List.replicate_zero]
      rfl
  | succ k ih =>
      cases n with
      | zero =>
          rw [pull_of_exhausted rfl]
          exact ⟨by rw [Nat.zero_min]; rfl, by rw [Nat.zero_min]; rfl, fun _ => by simp [of]⟩
      | succ n =>
          have hmin : min (n + 1) (k + 1) = min n k + 1 := by omega
          rw [pull, of, next?]
          dsimp only
          rcases hnext : g.next c with ⟨first, g₁⟩
          have hplan : g₁.plan = g.plan := by rw [← Generator.plan_next (g := g) c, hnext]
          have hmany := g.many_succ c (min n k)
          rw [hnext] at hmany
          cases first with
          | error e => exact ⟨by rw [hmin, hmany]; rfl, by rw [hmin, hmany], nofun⟩
          | ok r =>
              obtain ⟨hanswers, hgenerator, hremaining⟩ := ih g₁ (c.after g₁.plan.size) n
              rw [hplan] at hanswers hgenerator hremaining
              dsimp only at hmany ⊢
              rw [hplan]
              rcases hrest : g₁.many (c.after g.plan.size) (min n k) with ⟨rest, g'⟩
              rw [hrest] at hanswers hgenerator hmany
              refine ⟨?_, ?_, fun hok => ?_⟩
              · rw [hmin, hmany, ← of, hanswers]
                cases rest with
                | error e => rfl
                | ok rs => simp [Except.map]
              · rw [hmin, hmany, ← of, hgenerator]
                cases rest <;> rfl
              · rw [← of] at hok ⊢
                have hrestok : ((of g₁ n).pull (c.after g.plan.size) k).1.isOk := by
                  rcases h : ((of g₁ n).pull (c.after g.plan.size) k).1 with e | a
                  · rw [h] at hok
                    exact hok
                  · rfl
                rw [hremaining hrestok, hmin]
                omega

end RecordStream

/-! ## Uses together -/

namespace Generator

/-- Records that are drawn alike from where the others end are drawn alike behind them. -/
theorem andThen_congr {x : Except DrawFault (List Record) × Generator}
    {draw draw' : Generator → Except DrawFault (List Record) × Generator}
    (h : draw x.2 = draw' x.2) : andThen x draw = andThen x draw' := by
  obtain ⟨x, g⟩ := x
  cases x with
  | error e => rfl
  | ok rs => rw [andThen_ok, andThen_ok, show draw g = draw' g from h]

/-- One use gives the records that come next, as many as it counts for. -/
theorem use_eq_many (g : Generator) (c : Clock) (u : Use) : g.use c u = g.many c u.count := by
  cases u with
  | one => exact (many_one g c).symm
  | many n => rfl
  | stream length taken =>
      obtain ⟨hanswers, hgenerator, -⟩ := RecordStream.pull_answers g c length taken
      rw [use, RecordStream.take_eq_pull]
      dsimp only
      rw [hanswers, hgenerator, Use.count]
      rcases g.many c (min length taken) with ⟨x, g'⟩
      cases x with
      | error e => rfl
      | ok rs => simp [Except.map, List.reduceOption, List.filterMap_append]

/-- Uses of a generator whose plan has no moments, from wherever it stands, at any times. -/
theorem useAll_eq_many_of_timeless {g : Generator} (h : g.plan.hasTimestamp = false)
    (uses : List (Clock × Use)) (c : Clock) : g.useAll uses = g.many c (total uses) := by
  induction uses generalizing g c with
  | nil => rfl
  | cons u uses ih =>
      obtain ⟨clock, u⟩ := u
      have htotal : total ((clock, u) :: uses) = u.count + total uses := rfl
      rw [useAll, htotal, many_add, use_eq_many, many_clock h clock c]
      apply andThen_congr
      exact ih (by simp [h]) _

/-- **However a generator is used, its records are one row**: what all uses give, the fault they
come to and the generator they leave are those of as many records drawn at once from a fresh
generator, whatever the clock shows. Each stream of `n` records says that `n` are left before it is
asked for any, and answers as `RecordStream.Answers` has it. -/
theorem useAll_eq_many {plan : Plan} (hplan : plan.hasTimestamp = false) (seed : UInt64)
    (uses : List (Clock × Use)) :
    (∀ c, (ofSeed plan seed).useAll uses = (ofSeed plan seed).many c (total uses)) ∧
    ∀ (g : Generator) (c : Clock) (n k : Nat), (RecordStream.of g n).remaining = n ∧
      RecordStream.Answers g c n k ((RecordStream.of g n).pull c k) := by
  refine ⟨fun c => useAll_eq_many_of_timeless hplan uses c, fun g c n k => ⟨rfl, ?_⟩⟩
  exact RecordStream.pull_answers g c n k

/-- Throws of a die. -/
def throwsPlan : Plan :=
  { fields := [{ name := "n", kind := .integer, strategy := .range 1 6 }] }

/-- A stream that is given up before its end, one record, two records, and a stream that is asked
for more than it has. -/
def mixedUses : List (Clock × Use) :=
  [.stream 3 2, .one, .many 2, .stream 1 4].map fun u => (.zero, u)

/-- Six throws. -/
theorem useAll_eq_many_throws :
    (ofSeed throwsPlan 7).useAll mixedUses = (ofSeed throwsPlan 7).many .zero 6 ∧
    ((ofSeed throwsPlan 7).useAll mixedUses).1.map (·.map Record.text) =
      .ok (["1", "4", "2", "6", "2", "2"].map fun n => "\x7b\"n\":" ++ n ++ "\x7d") :=
  have htimeless : throwsPlan.hasTimestamp = false := rfl
  ⟨(useAll_eq_many htimeless 7 mixedUses).1 .zero, by decide +kernel⟩

end Generator

end SampleData
