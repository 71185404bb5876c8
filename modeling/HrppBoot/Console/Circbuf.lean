import HrppBoot.Lib.Ring

/-!
# The circular buffer of the serial line

`buf_init`, `buf_push` and `buf_pop` of `lib/circbuf.c`. Pointers are offsets into the data. Over
any calls the buffer is the queue that keeps the last bytes.
-/

namespace HrppBoot.Console

/-- `circbuf_t` -/
structure Circbuf where
  /-- `size`: the current number of bytes held. -/
  size : Nat
  /-- `totalsize`: the number of bytes allocated. -/
  totalsize : Nat
  /-- `top`: the current buffer start. -/
  top : Nat
  /-- `tail`: the space for the next element. -/
  tail : Nat
  /-- `data`: all data. -/
  data : List UInt8
  deriving DecidableEq

/-- `buf_init`, with the bytes that `malloc` found. -/
def bufInit (memory : List UInt8) : Circbuf where
  size := 0
  totalsize := memory.length
  top := 0
  tail := 0
  data := memory

namespace Circbuf

/-- A pointer that reached `end` goes back to `data`. -/
def boundsCheck (buf : Circbuf) (p : Nat) : Nat := if p = buf.totalsize then 0 else p

/-- The loop of `buf_pop`: what it copies, and where it stops. There is none where it leaves the
data. -/
def popLoop (buf : Circbuf) : (len p : Nat) → Option (List UInt8 × Nat)
  | 0, p => some ([], p)
  | len + 1, p =>
    buf.data[p]?.bind fun c =>
      (buf.popLoop len (buf.boundsCheck (p + 1))).map fun rest => (c :: rest.1, rest.2)

/-- `buf_pop`: what is in `dest`, and the buffer afterwards. -/
def bufPop (buf : Circbuf) (len : Nat) : Option (List UInt8 × Circbuf) :=
  let len := if len > buf.size then buf.size else len
  (buf.popLoop len buf.top).map fun copied =>
    (copied.1, { buf with top := copied.2, size := buf.size - len })

/-- One more byte, or one more in the place of the oldest. -/
def counted (buf : Circbuf) : Circbuf :=
  if buf.size < buf.totalsize then { buf with size := buf.size + 1 }
  else { buf with top := buf.boundsCheck (buf.top + 1) }

/-- The loop of `buf_push`, with its pointer. There is no result where it leaves the data. -/
def pushLoop (buf : Circbuf) (p : Nat) : List UInt8 → Option (Circbuf × Nat)
  | [] => some (buf, p)
  | c :: src =>
    if p < buf.data.length then
      pushLoop (counted { buf with data := buf.data.set p c }) (buf.boundsCheck (p + 1)) src
    else none

def bufPush (buf : Circbuf) (src : List UInt8) : Option Circbuf :=
  (buf.pushLoop buf.tail src).map fun pushed => { pushed.1 with tail := pushed.2 }

inductive Call where
  /-- `buf_push` with a block. -/
  | push (src : List UInt8)
  /-- `buf_pop` of so many bytes. -/
  | pop (len : Nat)
  deriving DecidableEq

/-- What a call gives, and the buffer afterwards. -/
def call (buf : Circbuf) : Call → Option (List UInt8 × Circbuf)
  | .push src => (buf.bufPush src).map fun buf => ([], buf)
  | .pop len => buf.bufPop len

def calls (buf : Circbuf) : List Call → Option (List (List UInt8) × Circbuf)
  | [] => some ([], buf)
  | first :: later =>
    (buf.call first).bind fun given =>
      (given.2.calls later).map fun rest => (given.1 :: rest.1, rest.2)

/-! ## The queue -/

/-- What a call means for the queue that keeps the last `n` bytes. -/
def queueCall (n : Nat) (queue : List UInt8) : Call → List UInt8 × List UInt8
  | .push src => ([], Ring.keepLast n (queue ++ src))
  | .pop len => (queue.take (min len queue.length), queue.drop (min len queue.length))

/-- Calls on the queue one after the other. -/
def queueCalls (n : Nat) (queue : List UInt8) : List Call → List (List UInt8) × List UInt8
  | [] => ([], queue)
  | first :: later =>
    let given := queueCall n queue first
    let rest := queueCalls n given.2 later
    (given.1 :: rest.1, rest.2)

/-- The buffer holds the queue, with room for `n` bytes. -/
structure Represents (n : Nat) (queue : List UInt8) (buf : Circbuf) : Prop where
  holds : Ring.Holds buf.data buf.top queue
  totalsize : buf.totalsize = n
  data : buf.data.length = n
  size : buf.size = queue.length

variable {n : Nat} {queue : List UInt8} {buf : Circbuf}

theorem Represents.boundsCheck (rep : Represents n queue buf) (p : Nat) :
    buf.boundsCheck p = Ring.wrap buf.data.length p := by
  rw [Circbuf.boundsCheck, Ring.wrap, rep.totalsize, rep.data]

theorem Represents.length_le (rep : Represents n queue buf) : queue.length ≤ n :=
  rep.data ▸ rep.holds.room

theorem counted_free (free : buf.size < buf.totalsize) :
    buf.counted = { buf with size := buf.size + 1 } := if_pos free

theorem counted_full (full : ¬buf.size < buf.totalsize) :
    buf.counted = { buf with top := buf.boundsCheck (buf.top + 1) } := if_neg full

/-- The space for the next byte, behind the queue. -/
def Behind (n : Nat) (queue : List UInt8) (buf : Circbuf) (p : Nat) : Prop :=
  p = (buf.top + queue.length) % n

theorem Represents.pushByte_free (rep : Represents n queue buf) (free : queue.length < n)
    (c : UInt8) :
    Represents n (queue ++ [c])
      { buf with data := buf.data.set ((buf.top + queue.length) % n) c, size := buf.size + 1 } := by
  have pushed := rep.holds.push (by rwa [rep.data]) c
  rw [rep.data] at pushed
  exact ⟨pushed, rep.totalsize, by simpa using rep.data, by simpa using rep.size⟩

theorem Represents.pushByte_full (rep : Represents n queue buf) (full : queue.length = n)
    (c : UInt8) :
    Represents n (Ring.keepLast n (queue ++ [c]))
      { buf with
        data := buf.data.set ((buf.top + queue.length) % n) c
        top := buf.boundsCheck (buf.top + 1) } := by
  have replaced := rep.holds.replace (by rw [full, rep.data]) c
  rw [← rep.boundsCheck, rep.data] at replaced
  refine ⟨replaced, rep.totalsize, by simpa using rep.data, ?_⟩
  rw [Ring.length_keepLast, List.length_append, List.length_singleton, full, rep.size, full]
  omega

variable {p : Nat}

theorem Represents.pushByte (rep : Represents n queue buf) (c : UInt8)
    (behind : Behind n queue buf p) :
    Represents n (Ring.keepLast n (queue ++ [c])) (counted { buf with data := buf.data.set p c }) ∧
      Behind n (Ring.keepLast n (queue ++ [c])) (counted { buf with data := buf.data.set p c })
        (buf.boundsCheck (p + 1)) := by
  have positive : 0 < n := rep.data ▸ Nat.zero_lt_of_lt rep.holds.inside
  have next : buf.boundsCheck (p + 1) = (buf.top + queue.length + 1) % n := by
    rw [rep.boundsCheck, Ring.wrap_succ (by rw [rep.data, behind]; exact Nat.mod_lt _ positive),
      rep.data, behind, Nat.mod_add_mod]
  have test : buf.size < buf.totalsize ↔ queue.length < n := by rw [rep.size, rep.totalsize]
  rw [Behind, Ring.length_keepLast, List.length_append, List.length_singleton, next, behind]
  by_cases free : queue.length < n
  · rw [counted_free (by exact test.mpr free),
      Ring.keepLast_of_le (by simpa using Nat.succ_le_of_lt free),
      Nat.min_eq_right (Nat.succ_le_of_lt free)]
    exact ⟨rep.pushByte_free free c, rfl⟩
  · have full : queue.length = n := Nat.le_antisymm rep.length_le (Nat.not_lt.mp free)
    have top : buf.boundsCheck (buf.top + 1) = (buf.top + 1) % n := by
      rw [rep.boundsCheck, Ring.wrap_succ rep.holds.inside, rep.data]
    rw [counted_full (by exact test.not.mpr free), Nat.min_eq_left (by omega)]
    refine ⟨rep.pushByte_full full c, ?_⟩
    change _ = (buf.boundsCheck (buf.top + 1) + n) % n
    rw [top, full, Nat.mod_add_mod, Nat.add_right_comm]

theorem Represents.pushLoop (rep : Represents n queue buf) (src : List UInt8)
    (behind : Behind n queue buf p) :
    ∃ after p', buf.pushLoop p src = some (after, p') ∧
      Represents n (Ring.keepLast n (queue ++ src)) after ∧
      Behind n (Ring.keepLast n (queue ++ src)) after p' := by
  induction src generalizing queue buf p with
  | nil =>
    rw [List.append_nil, Ring.keepLast_of_le rep.length_le]
    exact ⟨buf, p, rfl, rep, behind⟩
  | cons c src ih =>
    have positive : 0 < n := rep.data ▸ Nat.zero_lt_of_lt rep.holds.inside
    have inside : p < buf.data.length := by
      rw [rep.data, behind]
      exact Nat.mod_lt _ positive
    have next := rep.pushByte c behind
    obtain ⟨after, p', pushed, repAfter, behindAfter⟩ := ih next.1 next.2
    rw [Ring.keepLast_append, List.append_assoc, List.singleton_append] at repAfter behindAfter
    rw [Circbuf.pushLoop, if_pos inside]
    exact ⟨after, p', pushed, repAfter, behindAfter⟩

theorem Represents.bufPush (rep : Represents n queue buf) (behind : Behind n queue buf buf.tail)
    (src : List UInt8) :
    ∃ after, buf.bufPush src = some after ∧
      Represents n (Ring.keepLast n (queue ++ src)) after ∧
      Behind n (Ring.keepLast n (queue ++ src)) after after.tail := by
  obtain ⟨after, p, pushed, repAfter, behindAfter⟩ := rep.pushLoop src behind
  refine ⟨{ after with tail := p }, ?_, ⟨repAfter.holds, repAfter.totalsize, repAfter.data,
    repAfter.size⟩, behindAfter⟩
  rw [Circbuf.bufPush, pushed]
  rfl

theorem popLoop_holds (around : ∀ p, buf.boundsCheck p = Ring.wrap buf.data.length p)
    {first later : List UInt8} (holds : Ring.Holds buf.data p (first ++ later)) :
    ∃ p', buf.popLoop first.length p = some (first, p') ∧ Ring.Holds buf.data p' later ∧
      p' = (p + first.length) % buf.data.length := by
  induction first generalizing p with
  | nil => exact ⟨p, rfl, holds, (Nat.mod_eq_of_lt holds.inside).symm⟩
  | cons c first ih =>
    obtain ⟨p', copied, rest, next⟩ := ih holds.tail
    rw [Ring.wrap_add] at next
    refine ⟨p', ?_, rest, next⟩
    rw [List.length_cons, popLoop, holds.first, around, Option.bind_some, copied]
    rfl

theorem Represents.bufPop (rep : Represents n queue buf) (behind : Behind n queue buf buf.tail)
    (len : Nat) :
    ∃ after, buf.bufPop len = some (queue.take (min len queue.length), after) ∧
      Represents n (queue.drop (min len queue.length)) after ∧
      Behind n (queue.drop (min len queue.length)) after after.tail := by
  have cap : (if len > buf.size then buf.size else len) = min len queue.length := by
    rw [rep.size]
    split <;> omega
  have parts : Ring.Holds buf.data buf.top
      (queue.take (min len queue.length) ++ queue.drop (min len queue.length)) :=
    (List.take_append_drop _ queue).symm ▸ rep.holds
  obtain ⟨p, copied, rest, next⟩ := popLoop_holds rep.boundsCheck parts
  have length : (queue.take (min len queue.length)).length = min len queue.length := by
    rw [List.length_take]
    omega
  rw [length] at copied next
  refine ⟨{ buf with top := p, size := buf.size - min len queue.length }, ?_,
    ⟨rest, rep.totalsize, rep.data, ?_⟩, ?_⟩
  · rw [Circbuf.bufPop, cap, copied]
    rfl
  · change buf.size - min len queue.length = _
    rw [List.length_drop, rep.size]
  · change buf.tail = (p + (queue.drop (min len queue.length)).length) % n
    rw [next, rep.data, Nat.mod_add_mod, List.length_drop, behind]
    congr 1
    omega

theorem bufInit_represents {memory : List UInt8} (positive : 0 < memory.length) :
    Represents memory.length [] (bufInit memory) ∧
      Behind memory.length [] (bufInit memory) (bufInit memory).tail :=
  ⟨⟨Ring.Holds.empty positive, rfl, rfl, rfl⟩, (Nat.zero_mod _).symm⟩

theorem Represents.call (rep : Represents n queue buf) (behind : Behind n queue buf buf.tail)
    (first : Call) :
    ∃ after, buf.call first = some ((queueCall n queue first).1, after) ∧
      Represents n (queueCall n queue first).2 after ∧
      Behind n (queueCall n queue first).2 after after.tail := by
  cases first with
  | push src =>
    obtain ⟨after, pushed, repAfter, behindAfter⟩ := rep.bufPush behind src
    refine ⟨after, ?_, repAfter, behindAfter⟩
    rw [Circbuf.call, pushed]
    rfl
  | pop len => exact rep.bufPop behind len

theorem Represents.calls (rep : Represents n queue buf) (behind : Behind n queue buf buf.tail)
    (made : List Call) :
    ∃ after, buf.calls made = some ((queueCalls n queue made).1, after) ∧
      Represents n (queueCalls n queue made).2 after ∧
      Behind n (queueCalls n queue made).2 after after.tail := by
  induction made generalizing queue buf with
  | nil => exact ⟨buf, rfl, rep, behind⟩
  | cons first later ih =>
    obtain ⟨between, called, repBetween, behindBetween⟩ := rep.call behind first
    obtain ⟨after, more, repAfter, behindAfter⟩ := ih repBetween behindBetween
    refine ⟨after, ?_, repAfter, behindAfter⟩
    rw [Circbuf.calls, called, Option.bind_some, more]
    rfl

/-- Over any calls the buffer gives what the queue gives that keeps the last bytes; it never holds
more than it has room for, and its pointers stay inside the data. -/
theorem circbuf_queue (memory : List UInt8) (positive : 1 ≤ memory.length) (made : List Call) :
    ∃ after, (bufInit memory).calls made = some ((queueCalls memory.length [] made).1, after) ∧
      Ring.Holds after.data after.top (queueCalls memory.length [] made).2 ∧
      after.size = (queueCalls memory.length [] made).2.length ∧
      after.size ≤ memory.length ∧ after.data.length = memory.length ∧
      after.top < memory.length ∧ after.tail < memory.length := by
  obtain ⟨rep, behind⟩ := bufInit_represents positive
  obtain ⟨after, called, repAfter, behindAfter⟩ := rep.calls behind made
  refine ⟨after, called, repAfter.holds, repAfter.size, ?_, repAfter.data, ?_, ?_⟩
  · rw [repAfter.size]
    exact repAfter.length_le
  · exact repAfter.data ▸ repAfter.holds.inside
  · rw [behindAfter]
    exact Nat.mod_lt _ positive

/-- Three bytes pushed into a buffer of two: the last two are popped. -/
theorem circbuf_queue_two :
    1 ≤ [0, 0].length ∧ ∃ after,
      (bufInit [0, 0]).calls [.push [1, 2, 3], .pop 5] = some ([[], [2, 3]], after) := by
  obtain ⟨after, called, -⟩ := circbuf_queue [0, 0] (by decide) [.push [1, 2, 3], .pop 5]
  exact ⟨by decide, after, called⟩

end Circbuf

end HrppBoot.Console
