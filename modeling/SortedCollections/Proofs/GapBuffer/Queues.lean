import SortedCollections.GapBuffer.Command
import SortedCollections.GapBuffer.Lemmas
import Mathlib.Data.List.Forall2

/-!
# A gap buffer is a pair of queues

The written items are a queue that grows at its end, the unread ones a queue that is emptied from
its front. However the steps follow one another, the buffer serves every request as the two queues
do, none of its own checks fails, and its regions stay in order.

What a request cannot do is move the bounds of the regions by hand, or ask for a negative number
of items.
-/
namespace SortedCollections

namespace GapBuffer

variable {ε α : Type}

/-- A command that leaves the bounds of the regions to the buffer. -/
inductive Request (α : Type) where
  | consume (n : Nat) (take : Bool)
  | extend (items : List α)
  | push (item : α)
  | popFront (n : Nat)
  | finish
  | restart (items : List α)
  | check
  | remaining

namespace Request

def command : Request α → Command α
  | consume n take => .consume n take
  | extend items => .extend items
  | push item => .push item
  | popFront n => .popFront n
  | finish => .finish
  | restart items => .restart items
  | check => .check
  | remaining => .remaining

/-- How many unread items are asked for. -/
def asked : Request α → Nat
  | consume n _ => n
  | popFront n => n
  | _ => 0

def askedAll : List (Request α) → Nat
  | [] => 0
  | request :: rest => request.asked + askedAll rest

/-- The requests after which no gap is left. -/
def closes : Request α → Bool
  | finish => true
  | restart _ => true
  | _ => false

end Request

/-- The items put out so far, and the items still to be read. -/
structure Queues (α : Type) where
  out : List α
  unread : List α

/-- What the queues have answered to a request, and the queues after it. -/
structure Served (α : Type) where
  request : Request α
  answer : Answer α
  after : Queues α

namespace Queues

def answer (q : Queues α) : Request α → Answer α
  | .popFront n => .items (q.unread.take n)
  | .finish => .accepted
  | .restart _ => .accepted
  | .remaining => .count q.unread.length
  | _ => .done

def serve (q : Queues α) : Request α → Queues α
  | .consume n take => ⟨if take then q.out ++ q.unread.take n else q.out, q.unread.drop n⟩
  | .extend items => ⟨q.out ++ items, q.unread⟩
  | .push item => ⟨q.out ++ [item], q.unread⟩
  | .popFront n => ⟨q.out, q.unread.drop n⟩
  | .finish => ⟨q.out, []⟩
  | .restart items => ⟨[], items⟩
  | .check => q
  | .remaining => q

def serveAll (q : Queues α) : List (Request α) → List (Served α)
  | [] => []
  | request :: rest =>
    ⟨request, q.answer request, q.serve request⟩ :: (q.serve request).serveAll rest

/-- Until the queues are closed, a request takes from the unread items what it asks for, and leaves
the others alone. -/
theorem unread_serve (q : Queues α) {request : Request α} (opened : request.closes = false) :
    (q.serve request).unread = q.unread.drop request.asked := by
  cases request with
  | consume n take => rfl
  | popFront n => rfl
  | finish => cases opened
  | restart items => cases opened
  | extend items | push item | check | remaining => exact List.drop_zero.symm

theorem unread_serveAll {requests : List (Request α)} {q : Queues α} {i : Nat} {served : Served α}
    (reached : (q.serveAll requests)[i]? = some served)
    (opened : ∀ request ∈ requests.take (i + 1), request.closes = false) :
    served.after.unread = q.unread.drop (Request.askedAll (requests.take (i + 1))) := by
  induction requests generalizing q i with
  | nil => cases reached
  | cons request rest ih =>
    rw [List.take_succ_cons] at opened ⊢
    have here := q.unread_serve (opened request List.mem_cons_self)
    rw [Request.askedAll, ← List.drop_drop, ← here]
    cases i with
    | zero =>
      cases reached
      rfl
    | succ i => exact ih reached fun request mem => opened request (List.mem_cons_of_mem _ mem)

end Queues

/-- The buffer holds the two queues in its regions. -/
structure Holds (b : GapBuffer α) (q : Queues α) : Prop where
  coherent : b.Coherent
  written : b.written = q.out
  unread : b.unread = q.unread

theorem holds_ofRegions (q : Queues α) (g : List α) : (ofRegions q.out g q.unread).Holds q where
  coherent := (coherent_iff _).mpr ⟨_, _, _, rfl⟩
  written := written_ofRegions ..
  unread := unread_ofRegions ..

theorem Holds.exists_eq {b : GapBuffer α} {q : Queues α} (holds : b.Holds q) :
    ∃ g, b = ofRegions q.out g q.unread := by
  obtain ⟨w, g, u, rfl⟩ := (coherent_iff b).mp holds.coherent
  have written := holds.written
  have unread := holds.unread
  rw [written_ofRegions] at written
  rw [unread_ofRegions] at unread
  exact ⟨g, by rw [written, unread]⟩

/-- A step on the buffer succeeds and ends as the queues do, without a gap if the request is one
that closes it. -/
def Answers (q : Queues α) (request : Request α)
    (result : EStateM.Result (Fault ε) (GapBuffer α) (Answer α)) : Prop :=
  ∃ g, result = .ok (q.answer request) (ofRegions (q.serve request).out g (q.serve request).unread) ∧
    (request.closes = true → g = [])

variable [Inhabited α]

/-- What one request keeps: a buffer that holds the queues serves it as they do. -/
theorem answers_run (q : Queues α) (g : List α) (request : Request α) :
    Answers (ε := ε) q request (request.command.run (ofRegions q.out g q.unread)) := by
  have kept : request.closes = false → ∀ g' : List α, request.closes = true → g' = [] :=
    fun opened g' closed => absurd (opened.symm.trans closed) (by decide)
  cases request with
  | consume n take =>
    obtain ⟨g', step⟩ := exists_consumeStep (ε := ε) q.out g q.unread n take
    exact ⟨g', by rw [Request.command, Command.run, bind_run, step]; rfl, kept rfl g'⟩
  | extend items =>
    obtain ⟨g', step⟩ := exists_extendStep (ε := ε) q.out g q.unread items
    exact ⟨g', by rw [Request.command, Command.run, bind_run, step]; rfl, kept rfl g'⟩
  | push item =>
    obtain ⟨g', step⟩ := exists_pushStep (ε := ε) q.out g q.unread item
    exact ⟨g', by rw [Request.command, Command.run, bind_run, step]; rfl, kept rfl g'⟩
  | popFront n =>
    obtain ⟨g', step⟩ := exists_popFrontStep (ε := ε) q.out g q.unread n
    exact ⟨g', by rw [Request.command, Command.run, bind_run, step]; rfl, kept rfl g'⟩
  | finish => exact ⟨[], congrArg (EStateM.Result.ok _) (finish_ofRegions ..), fun _ => rfl⟩
  | restart items => exact ⟨[], rfl, fun _ => rfl⟩
  | check =>
    have coherent := (holds_ofRegions q g).coherent
    refine ⟨g, ?_, kept rfl g⟩
    rw [Request.command, Command.run, bind_run, checkStep, if_pos coherent]
    rfl
  | remaining =>
    refine ⟨g, ?_, kept rfl g⟩
    have count := remaining_ofRegions q.out g q.unread
    exact congrArg (fun n => EStateM.Result.ok (Answer.count n) _) count

/-- The report on a step tells what the queues have done. -/
structure Tells (report : Report ε α) (served : Served α) : Prop where
  answer : report.answer = .ok served.answer
  holds : report.after.Holds served.after
  /-- A buffer without a gap is its items alone. -/
  closed : served.request.closes = true →
    report.after.slots = served.after.out ++ served.after.unread

theorem tells_runAll (requests : List (Request α)) {b : GapBuffer α} {q : Queues α}
    (holds : b.Holds q) :
    List.Forall₂ (Tells (ε := ε)) (b.runAll (requests.map Request.command))
      (q.serveAll requests) := by
  induction requests generalizing b q with
  | nil => exact .nil
  | cons request rest ih =>
    obtain ⟨g, rfl⟩ := holds.exists_eq
    obtain ⟨g', step, closed⟩ := answers_run (ε := ε) q g request
    have after := holds_ofRegions (q.serve request) g'
    rw [List.map_cons, runAll, step, Queues.serveAll]
    refine .cons ⟨rfl, after, fun closing => ?_⟩ (ih after)
    rw [closed closing]
    simp only [ofRegions, List.append_nil]

/-- A list that is rebuilt in place behaves as a pair of queues: a run of any requests, with counts
of any size, gives the answers of the queues, keeps the regions in order and holds in them what the
queues hold. No unread item is overwritten: until the buffer is finished or restarted, the unread
items are the initial list behind the items that were asked for. -/
theorem buffer_refines_queues (items : List α) (requests : List (Request α)) :
    List.Forall₂ (Tells (ε := ε)) ((ofList items).runAll (requests.map Request.command))
      ((Queues.mk [] items).serveAll requests) ∧
    ∀ (i : Nat) (report : Report ε α),
      ((ofList items).runAll (requests.map Request.command))[i]? = some report →
      (∀ request ∈ requests.take (i + 1), request.closes = false) →
      report.after.unread = items.drop (Request.askedAll (requests.take (i + 1))) := by
  have tells := tells_runAll (ε := ε) requests (holds_ofRegions (Queues.mk [] items) [])
  refine ⟨tells, fun i report reached opened => ?_⟩
  obtain ⟨inside, rfl⟩ := List.getElem?_eq_some_iff.mp reached
  have served : i < ((Queues.mk [] items).serveAll requests).length := tells.length_eq ▸ inside
  have here := (tells.get inside served).holds.unread
  exact here.trans (Queues.unread_serveAll (List.getElem?_eq_getElem served) opened)

/-- Four items, of which one is handed out and one dropped between two gaps. -/
theorem rebuilt_between_gaps :
    let requests : List (Request Nat) :=
      [.push 7, .popFront 1, .extend [8, 9, 10, 11, 12], .consume 1 false, .consume 9 true, .finish]
    let report : Report Empty Nat := ⟨.ok .done, ofRegions [7, 8, 9, 10, 11, 12] [0, 0, 0, 0, 0] [3, 4]⟩
    ((ofList [1, 2, 3, 4]).runAll (requests.map Request.command))[3]? = some report ∧
      (∀ request ∈ requests.take 4, request.closes = false) ∧ report.after.unread = [3, 4] := by
  intro requests report
  have reached : ((ofList [1, 2, 3, 4]).runAll (requests.map Request.command))[3]? = some report :=
    rfl
  have opened : ∀ request ∈ requests.take 4, request.closes = false := by decide
  exact ⟨reached, opened, (buffer_refines_queues [1, 2, 3, 4] requests).2 3 report reached opened⟩

end GapBuffer

end SortedCollections
