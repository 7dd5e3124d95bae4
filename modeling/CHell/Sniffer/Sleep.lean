import CHell.Lib.Traced
import Mathlib.Data.List.Chain

/-!
# Sleeping through signals, `network/net-cap-v4.c`

| here | there |
| --- | --- |
| `sleepLoop` | `do { … } while (ret && errno == EINTR)` (:81-83) |
| `msleep`    | `msleep` (:67-86) |

`nanosleep(&ts, &ts)` that a signal interrupts leaves in `ts` what is left to sleep, and the loop goes on with that. What
`msleep` asks for is told by `msleep_requests`: all of the time at first, then what was left each time. How long the
process really sleeps is up to `nanosleep`. The answers of `nanosleep` are a list; a call behind its end does not return.
-/

namespace CHell.Sniffer

open Traced

structure Timespec where
  tv_sec : Int
  tv_nsec : Int
deriving DecidableEq

def Timespec.ns (ts : Timespec) : Int := ts.tv_sec * 1000000000 + ts.tv_nsec

/-- What `nanosleep` takes. -/
structure Timespec.Valid (ts : Timespec) : Prop where
  sec_nonneg : 0 ≤ ts.tv_sec
  nsec_nonneg : 0 ≤ ts.tv_nsec
  nsec_lt : ts.tv_nsec < 1000000000

inductive Nanosleep
  | slept
  /-- -1 and `EINTR`. -/
  | interrupted (rem : Timespec)
  /-- -1 and another `errno`. -/
  | failed
deriving DecidableEq

structure SleepCall where
  req : Timespec
  res : Nanosleep
deriving DecidableEq

def sleepLoop : List Nanosleep → Timespec → Traced SleepCall Int
  | [], _ => ⟨[], none⟩
  | res :: script, ts => do
    emit ⟨ts, res⟩
    match res with
    | .slept => pure 0
    | .interrupted rem => sleepLoop script rem
    | .failed => pure (-1)

def msleep (script : List Nanosleep) (tms : Int) : Traced SleepCall Int :=
  if tms < 0 then pure (-1)
  else sleepLoop script ⟨tms.tdiv 1000, tms.tmod 1000 * 1000000⟩

/-! ## What is asked for -/

/-- What is left is a time, and not more than was asked for. -/
def SleepCall.Honest (c : SleepCall) : Prop :=
  ∀ rem, c.res = .interrupted rem → rem.Valid ∧ rem.ns ≤ c.req.ns

/-- The first call was interrupted, and the next one asks for what it has left. -/
def Continues (c c' : SleepCall) : Prop := c.res = .interrupted c'.req

/-- What the function returns when this is the answer to its last call. -/
def Nanosleep.returns : Nanosleep → Option Int
  | .slept => some 0
  | .interrupted _ => none
  | .failed => some (-1)

/-- The loop asks for `ns` nanoseconds, then for what is left of them, until a call is not interrupted. -/
structure Requests (ns : Int) (run : Traced SleepCall Int) : Prop where
  first : ∀ c ∈ run.events.head?, c.req.ns = ns
  chain : run.events.IsChain Continues
  valid : ∀ c ∈ run.events, c.req.Valid
  /-- No call asks for more than one before it. -/
  antitone : (run.events.map fun c => c.req.ns).Pairwise (· ≥ ·)
  value : run.value = run.events.getLast?.bind fun c => c.res.returns

theorem sleepLoop_head (script : List Nanosleep) (ts : Timespec) :
    ∀ c ∈ (sleepLoop script ts).events.head?, c.req = ts := by
  cases script with
  | nil => simp [sleepLoop]
  | cons res script => cases res <;> simp [sleepLoop]

theorem sleepLoop_requests (script : List Nanosleep) {ts : Timespec} (hts : ts.Valid)
    (h : ∀ c ∈ (sleepLoop script ts).events, c.Honest) :
    Requests ts.ns (sleepLoop script ts) ∧ ∀ c ∈ (sleepLoop script ts).events, c.req.ns ≤ ts.ns := by
  induction script generalizing ts with
  | nil => exact ⟨⟨by simp [sleepLoop], .nil, by simp [sleepLoop], .nil, rfl⟩, by simp [sleepLoop]⟩
  | cons res script ih =>
    cases res with
    | slept | failed =>
      refine ⟨⟨?_, .singleton _, ?_, List.pairwise_singleton _ _, rfl⟩, ?_⟩ <;> simp [sleepLoop, hts]
    | interrupted rem =>
      have hcall : sleepLoop (.interrupted rem :: script) ts =
          ⟨⟨ts, .interrupted rem⟩ :: (sleepLoop script rem).events, (sleepLoop script rem).value⟩ := rfl
      rw [hcall] at h ⊢
      obtain ⟨hfirst, hrest⟩ := List.forall_mem_cons.1 h
      obtain ⟨hrem, hle⟩ := hfirst rem rfl
      obtain ⟨⟨-, hchain, hvalid, hantitone, hvalue⟩, hbound⟩ := ih hrem hrest
      have hbound' : ∀ c ∈ (sleepLoop script rem).events, c.req.ns ≤ ts.ns := fun c hc => Int.le_trans (hbound c hc) hle
      refine ⟨⟨by simp, hchain.cons ?_, List.forall_mem_cons.2 ⟨hts, hvalid⟩, ?_, ?_⟩,
        List.forall_mem_cons.2 ⟨Int.le_refl _, hbound'⟩⟩
      · intro c hc
        rw [Continues, sleepLoop_head script rem c hc]
      · exact List.pairwise_cons.2 ⟨by simpa using hbound', hantitone⟩
      · rw [hvalue]
        cases (sleepLoop script rem).events with
        | nil => rfl
        | cons c cs => rfl

/-- **What `msleep` asks for.** For every number of milliseconds and whatever `nanosleep` answers, if what it leaves is
a time not longer than what it was given. A negative number is refused, without a call. Otherwise the first call asks
for exactly that long, and each further one for just what an interrupted call before it has left, so never for more;
every one is given a proper time; and the function returns as soon as a call is not interrupted: 0 if that has slept
to its end, -1 if it has failed. -/
theorem msleep_requests (script : List Nanosleep) (tms : Int) (h : ∀ c ∈ (msleep script tms).events, c.Honest) :
    (tms < 0 → msleep script tms = ⟨[], some (-1)⟩) ∧ (0 ≤ tms → Requests (tms * 1000000) (msleep script tms)) := by
  refine ⟨fun hneg => if_pos hneg, fun hpos => ?_⟩
  have hcall : msleep script tms = sleepLoop script ⟨tms.tdiv 1000, tms.tmod 1000 * 1000000⟩ :=
    if_neg (Int.not_lt.2 hpos)
  rw [hcall] at h ⊢
  rw [Int.tdiv_eq_ediv_of_nonneg hpos, Int.tmod_eq_emod_of_nonneg hpos] at h ⊢
  have hns : (⟨tms / 1000, tms % 1000 * 1000000⟩ : Timespec).ns = tms * 1000000 := by
    unfold Timespec.ns
    simp only
    omega
  rw [← hns]
  exact (sleepLoop_requests script ⟨by simp only; omega, by simp only; omega, by simp only; omega⟩ h).1

/-- A second and a half, with a signal after 1.1 seconds. -/
theorem msleep_requests_interrupted :
    (msleep [.interrupted ⟨0, 400000000⟩, .slept] 1500).events =
      [⟨⟨1, 500000000⟩, .interrupted ⟨0, 400000000⟩⟩, ⟨⟨0, 400000000⟩, .slept⟩] ∧
    Requests (1500 * 1000000) (msleep [.interrupted ⟨0, 400000000⟩, .slept] 1500) := by
  have hevents : (msleep [.interrupted ⟨0, 400000000⟩, .slept] 1500).events =
      [⟨⟨1, 500000000⟩, .interrupted ⟨0, 400000000⟩⟩, ⟨⟨0, 400000000⟩, .slept⟩] := rfl
  refine ⟨hevents, (msleep_requests _ 1500 ?_).2 (by decide)⟩
  rw [hevents, List.forall_mem_cons]
  refine ⟨?_, by simp [SleepCall.Honest]⟩
  rintro rem ⟨⟩
  exact ⟨⟨by decide, by decide, by decide⟩, by decide⟩

end CHell.Sniffer
