import HoloscanLowering.InitializeFragment

/-! The run lifecycle of a fragment: `Fragment::run` and `run_async` with `reset_state`, and the
flags of `GXFExecutor` that `initialize_gxf_graph`, `run_gxf_graph` and `reset_execution_state`
set and clear. The work past the flags enters as the outcome each call meets: how the lowering
ends and how the GXF graph runs. A fragment is driven by any sequence of calls, a future of
`run_async` being waited on before the next call. -/
namespace HoloscanLowering
namespace Lifecycle

/-- How the body of `initialize_gxf_graph` past its flag ends: the whole graph built, an empty
graph skipped, `initialize_fragment` returning `false`, or an exception partway. -/
inductive Lowering
  | built
  | emptyGraph
  | declined
  | threw (msg : String)
  deriving DecidableEq, Repr

/-- How `run_gxf_graph` ends: the graph runs to completion; `HOLOSCAN_GXF_CALL_FATAL` throws
at `GxfGraphActivate` or at `GxfGraphRunAsync`; or `GxfGraphWait` fails, with the exception an
operator stored in the executor, if any. -/
inductive Execution
  | completes
  | activationFails (msg : String)
  | runFails (msg : String)
  | waitFails (stored : Option String)
  deriving DecidableEq, Repr

def Execution.rethrown : Execution → Option String
  | .waitFails stored => stored
  | _ => none

/-- What a call does: the body of `initialize_gxf_graph` runs and ends as `l`; the warning
"GXF graph is already initialized. Skipping initialization."; `GxfGraphActivate` and
`GxfGraphRunAsync` on the graph the context holds (`none`: nothing was built in it). -/
inductive Event
  | initializes (l : Lowering)
  | skipsInitialization
  | activates (g : Option Lowering)
  | runs (g : Option Lowering)
  deriving DecidableEq, Repr

def Event.isInitializes : Event → Bool
  | .initializes _ => true
  | _ => false

/-- The state of a `GXFExecutor` that the lifecycle reads and writes. `built` is what the
lowering has put into the current context: how the last body that ran in it ended. -/
structure Executor where
  ownsContext : Bool
  hasContext : Bool
  built : Option Lowering
  isRunCalled : Bool
  isGxfGraphInitialized : Bool
  isGxfGraphActivated : Bool
  deriving DecidableEq, Repr

/-- `GXFExecutor::reset_execution_state`: an executor that owns its context clears both graph
flags, and creates a new context when it has run a graph or has none. -/
def resetExecutionState (e : Executor) : Executor :=
  if e.ownsContext then
    let e' := { e with isGxfGraphInitialized := false, isGxfGraphActivated := false }
    if e.isRunCalled || !e.hasContext then { e' with hasContext := true, built := none } else e'
  else e

def Executor.create : Executor := resetExecutionState ⟨true,false,none,false,false,false⟩

/-- `GXFExecutor::initialize_gxf_graph` on a graph whose lowering ends as `l`. The flag is set
before any work, so it stays set when the body throws. -/
def initializeGxfGraph (e : Executor) (l : Lowering) : Executor × List Event × Except String Bool :=
  if e.isGxfGraphInitialized then (e,[.skipsInitialization],.ok true) else
  let e := { e with isGxfGraphInitialized := true }
  match l with
  | .built => ({ e with built := some .built },[.initializes l],.ok true)
  | .emptyGraph => (e,[.initializes l],.ok true)
  | .declined => ({ e with built := some .declined },[.initializes l],.ok false)
  | .threw m => ({ e with built := some (.threw m) },[.initializes l],.error m)

def activateGxfGraph (e : Executor) (x : Execution) : Executor × List Event × Option String :=
  if e.isGxfGraphActivated then (e,[],none) else
  match x with
  | .activationFails m => (e,[],some m)
  | _ => ({ e with isGxfGraphActivated := true },[.activates e.built],none)

/-- `GXFExecutor::run_gxf_graph`: activate, run and wait; then, whatever the wait returned, the
graph is inactive and the executor has run, and a failed wait rethrows the stored exception. -/
def runGxfGraph (e : Executor) (x : Execution) : Executor × List Event × Option String :=
  match activateGxfGraph e x, x with
  | (e,ev,some m), _ => (e,ev,some m)
  | (e,ev,none), .runFails m => (e,ev,some m)
  | (e,ev,none), x =>
    ({ e with isGxfGraphActivated := false, isRunCalled := true },ev++[.runs e.built],x.rethrown)

def Executor.run (e : Executor) (l : Lowering) (x : Execution) : Executor × List Event × Option String :=
  match initializeGxfGraph e l with
  | (e,ev,.error m) => (e,ev,some m)
  | (e,ev,.ok false) => (e,ev,none)
  | (e,ev,.ok true) => let r := runGxfGraph e x; (r.1,ev++r.2.1,r.2.2)

/-- `GXFExecutor::run_async`: `initialize_gxf_graph` only while the flag is clear, its result
ignored; `run_gxf_graph` runs in the returned future, so the call does not raise its
exception. -/
def Executor.runAsync (e : Executor) (l : Lowering) (x : Execution) : Executor × List Event × Option String :=
  match if e.isGxfGraphInitialized then (e,[],.ok true) else initializeGxfGraph e l with
  | (e,ev,.error m) => (e,ev,some m)
  | (e,ev,.ok _) => let r := runGxfGraph e x; (r.1,ev++r.2.1,none)

structure Fragment where
  isRunCalled : Bool
  executor : Executor
  deriving DecidableEq, Repr

def Fragment.create : Fragment := ⟨false,Executor.create⟩

def resetState (f : Fragment) : Fragment :=
  if f.isRunCalled then { f with executor := resetExecutionState f.executor } else f

structure Call where
  async : Bool
  lowering : Lowering
  execution : Execution
  deriving DecidableEq, Repr

structure Trace where
  events : List Event
  raised : Option String
  deriving DecidableEq, Repr

def Trace.initializes (t : Trace) : Bool := t.events.any Event.isInitializes

/-- `Fragment::run` and `Fragment::run_async`: `reset_state`, the executor's call, and
`is_run_called_` once the call returns. -/
def Fragment.call (f : Fragment) (c : Call) : Fragment × Trace :=
  let f := resetState f
  let r := (if c.async then Executor.runAsync else Executor.run) f.executor c.lowering c.execution
  (⟨f.isRunCalled || r.2.2.isNone,r.1⟩,⟨r.2.1,r.2.2⟩)

def Fragment.calls (f : Fragment) : List Call → Fragment × List Trace
  | [] => (f,[])
  | c::cs => let r := f.call c; let rs := r.1.calls cs; (rs.1,r.2::rs.2)

/-! ### One call -/

theorem initializeGxfGraph_spec (e : Executor) (l : Lowering) :
    (initializeGxfGraph e l).1.isGxfGraphInitialized = true ∧
      (initializeGxfGraph e l).1.ownsContext = e.ownsContext ∧
      (initializeGxfGraph e l).2.1.any Event.isInitializes = !e.isGxfGraphInitialized := by
  unfold initializeGxfGraph
  by_cases h : e.isGxfGraphInitialized
  · simp [h,Event.isInitializes]
  · cases l <;> simp [h,Event.isInitializes]

theorem runGxfGraph_spec (e : Executor) (x : Execution) :
    (runGxfGraph e x).1.isGxfGraphInitialized = e.isGxfGraphInitialized ∧
      (runGxfGraph e x).1.ownsContext = e.ownsContext ∧
      (runGxfGraph e x).2.1.any Event.isInitializes = false := by
  unfold runGxfGraph activateGxfGraph
  by_cases h : e.isGxfGraphActivated <;> cases x <;> simp [h,Event.isInitializes]

theorem executorCall_spec (async : Bool) (e : Executor) (l : Lowering) (x : Execution) :
    ((if async then Executor.runAsync else Executor.run) e l x).1.isGxfGraphInitialized = true ∧
      ((if async then Executor.runAsync else Executor.run) e l x).1.ownsContext = e.ownsContext ∧
      ((if async then Executor.runAsync else Executor.run) e l x).2.1.any Event.isInitializes =
        !e.isGxfGraphInitialized := by
  have hi := initializeGxfGraph_spec e l
  have cont : ∀ e' ev, e'.isGxfGraphInitialized = true ∧ e'.ownsContext = e.ownsContext ∧
      ev.any Event.isInitializes = !e.isGxfGraphInitialized →
      (runGxfGraph e' x).1.isGxfGraphInitialized = true ∧ (runGxfGraph e' x).1.ownsContext = e.ownsContext ∧
        (ev ++ (runGxfGraph e' x).2.1).any Event.isInitializes = !e.isGxfGraphInitialized := by
    rintro e' ev ⟨h₁,h₂,h₃⟩
    obtain ⟨g₁,g₂,g₃⟩ := runGxfGraph_spec e' x
    exact ⟨g₁.trans h₁,g₂.trans h₂,by rw [List.any_append,g₃,Bool.or_false,h₃]⟩
  cases async
  · simp only [Bool.false_eq_true,if_false,Executor.run]
    generalize initializeGxfGraph e l = r at hi
    obtain ⟨e',ev,m | _ | _⟩ := r
    · exact hi
    · exact hi
    · exact cont e' ev hi
  · by_cases h : e.isGxfGraphInitialized
    · simpa [Executor.runAsync,h] using cont e [] ⟨h,rfl,by simp [h]⟩
    · simp only [Executor.runAsync,if_true]
      rw [if_neg h]
      generalize initializeGxfGraph e l = r at hi
      obtain ⟨e',ev,m | _⟩ := r
      · exact hi
      · exact cont e' ev hi

theorem resetState_spec (f : Fragment) :
    (resetState f).isRunCalled = f.isRunCalled ∧
      (resetState f).executor.ownsContext = f.executor.ownsContext ∧
      (resetState f).executor.isGxfGraphInitialized =
        (f.executor.isGxfGraphInitialized && !(f.isRunCalled && f.executor.ownsContext)) := by
  unfold resetState resetExecutionState
  split_ifs <;> simp_all

theorem call_spec (f : Fragment) (c : Call) :
    (f.call c).1.executor.isGxfGraphInitialized = true ∧
      (f.call c).1.executor.ownsContext = f.executor.ownsContext ∧
      (f.call c).1.isRunCalled = (f.isRunCalled || (f.call c).2.raised.isNone) ∧
      (f.call c).2.initializes =
        !(f.executor.isGxfGraphInitialized && !(f.isRunCalled && f.executor.ownsContext)) := by
  obtain ⟨hr,ho,hi⟩ := resetState_spec f
  obtain ⟨h₁,h₂,h₃⟩ := executorCall_spec c.async (resetState f).executor c.lowering c.execution
  exact ⟨h₁,h₂.trans ho,by simp only [Fragment.call,hr],by rw [← hi,← h₃]; rfl⟩

/-! ### Runs of calls -/

/-- Over any sequence of calls: the ownership stays, `is_run_called_` is set once a call has
returned, and the initialization flag is set once a call was made. -/
theorem calls_spec (f : Fragment) (cs : List Call) :
    (f.calls cs).1.executor.ownsContext = f.executor.ownsContext ∧
      (f.calls cs).1.isRunCalled = (f.isRunCalled || (f.calls cs).2.any (·.raised.isNone)) ∧
      (f.calls cs).1.executor.isGxfGraphInitialized = (f.executor.isGxfGraphInitialized || !cs.isEmpty) := by
  induction cs generalizing f with
  | nil => simp [Fragment.calls]
  | cons c cs ih =>
    obtain ⟨h₁,h₂,h₃,-⟩ := call_spec f c
    obtain ⟨i₁,i₂,i₃⟩ := ih (f.call c).1
    simp only [Fragment.calls,List.any_cons,i₁,i₂,i₃,h₁,h₂,h₃]
    simp [Bool.or_assoc]

/-- A fragment runs the lowering on a call exactly when it is its first call or an earlier
call has returned: a call that raises before any has returned leaves the next one to skip
`initialize_gxf_graph`'s body. -/
theorem create_call_initializes_iff (cs : List Call) (c : Call) :
    ((Fragment.create.calls cs).1.call c).2.initializes = true ↔
      cs = [] ∨ ∃ t ∈ (Fragment.create.calls cs).2, t.raised.isNone = true := by
  obtain ⟨ho,hr,hi⟩ := calls_spec Fragment.create cs
  rw [(call_spec _ c).2.2.2,ho,hr,hi]
  cases cs <;> simp [Fragment.create,Executor.create,resetExecutionState,List.any_eq_true]

/-! ### The lowering's outcome -/

open InitializeFragment Worklist

variable {α : Type} [DecidableEq α]

/-- How the body of `initialize_gxf_graph` ends on an operator graph when its GXF setup
succeeds: empty, or as `initialize_fragment` ends; `none` where that has no defined
behaviour. -/
def lowering (G : OperatorGraph α) (policy : MetadataPolicy) : Option Lowering :=
  if G.nodes.isEmpty then some .emptyGraph else
  match initializeFragment G policy with
  | .finished _ _ => some .built
  | .failed (.exception m) => some (.threw m)
  | .failed (.returnFalse _) => some .declined
  | _ => none

def unconnectedInput : OperatorGraph Nat :=
  .ofEdges [0] (fun _ => ⟨"rx",.kNative,⟨[IOSpec.declare "in" IOSpec.kPrecedingCount],[],[],[]⟩,
    none,none,.kDefault,[],[]⟩) [] (by decide) (by decide) (by decide)

/-- `create_input_port` rejects the queue size of `in`, and the first `run()` raises. The
second `run()` finds the flag set, skips the lowering, and activates and runs what the failed
one left in the context. -/
theorem unconnectedInput_retry_runs_failed_graph :
    lowering unconnectedInput .kDefault =
        some (.threw "Invalid queue size: 0 (op: \x27rx\x27, input port: \x27in\x27)") ∧
      (Fragment.create.calls
        [⟨false,.threw "Invalid queue size: 0 (op: \x27rx\x27, input port: \x27in\x27)",.completes⟩,
          ⟨false,.built,.completes⟩]).2 =
        [⟨[.initializes (.threw "Invalid queue size: 0 (op: \x27rx\x27, input port: \x27in\x27)")],
            some "Invalid queue size: 0 (op: \x27rx\x27, input port: \x27in\x27)"⟩,
          ⟨[.skipsInitialization,
            .activates (some (.threw "Invalid queue size: 0 (op: \x27rx\x27, input port: \x27in\x27)")),
            .runs (some (.threw "Invalid queue size: 0 (op: \x27rx\x27, input port: \x27in\x27)"))],none⟩] := by
  have h : initializeFragment unconnectedInput .kDefault = .failed _ := rfl
  refine ⟨?_,by decide⟩
  rw [lowering,h]
  decide

end Lifecycle
end HoloscanLowering
