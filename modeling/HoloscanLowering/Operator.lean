import HoloscanLowering.Except

/-! Ports and operators as the lowering code of `Fragment` and `GXFExecutor` reads and writes
them. An operator's inputs and outputs are lists of ports in the iteration order of its spec's
port maps; an edge's port map sends each output port name to the input port names it feeds. -/
namespace HoloscanLowering

inductive ConnectorType
  | kDefault | kDoubleBuffer | kUCX
  deriving DecidableEq, Repr

/-- `ConditionType`: the kinds a port accepts, and `kOther` for the rest of the enumeration. -/
inductive ConditionType
  | kNone | kMessageAvailable | kDownstreamMessageAffordable | kExpiringMessageAvailable
  | kMultiMessageAvailable | kMultiMessageAvailableTimeout | kOther
  deriving DecidableEq, Repr

/-- A condition on a port with its `min_size` argument (unused by the kinds without one). -/
structure Condition where
  kind : ConditionType
  minSize : Nat
  deriving DecidableEq, Repr

inductive OperatorType
  | kNative | kGXF | kVirtual
  deriving DecidableEq, Repr

/-- `MetadataPolicy`: the two values the lowering sets or tests, and the others. -/
inductive MetadataPolicy
  | kDefault | kUpdate | kOther
  deriving DecidableEq, Repr

/-- The fields of an `IOSpec` that the lowering reads or writes. `capacity` is the `capacity`
argument of the `DoubleBufferReceiver` that `create_input_port` made for the port, if any. -/
structure IOSpec where
  name : String
  queueSize : Int
  connectorType : ConnectorType
  conditions : List Condition
  capacity : Option Int
  deriving DecidableEq, Repr

namespace IOSpec

/-- `IOSpec::kAnySize`: the port stands for indexed sub-ports, one per connection. -/
def kAnySize : Int := -1
def kPrecedingCount : Int := 0
def kSizeOne : Int := 1

def declare (name : String) (queueSize : Int) : IOSpec := ⟨name,queueSize,.kDefault,[],none⟩

end IOSpec

def kInputExecPortName : String := "__input_exec__"
def kOutputExecPortName : String := "__output_exec__"

/-- A multi-port condition of an `OperatorSpec`: its kind and the input ports it names. -/
structure MultiPortCondition where
  kind : ConditionType
  portNames : List String
  deriving DecidableEq, Repr

/-- The parts of an `OperatorSpec` the lowering uses: ports, the `std::vector<IOSpec*>`
parameters with the input ports they hold, and the multi-port conditions. -/
structure OperatorSpec where
  inputs : List IOSpec
  outputs : List IOSpec
  receivers : List (String × List String)
  multiPortConditions : List MultiPortCondition
  deriving DecidableEq, Repr

def findPort (ports : List IOSpec) (name : String) : Option IOSpec := ports.find? (·.name = name)

/-- The key order of the ordered port maps: `std::string`'s `operator<`, lexicographic on the
characters. -/
def keyLt (a b : String) : Prop := a.data < b.data

instance : DecidableRel keyLt := fun a b => inferInstanceAs (Decidable (a.data < b.data))

/-- Modelled from the spec: `OperatorSpec::input` / `output`, which the sources call but do not
contain, declare a port of the given name unless the ordered map already holds one, and the map
keeps its ports in key order. -/
def addPort (ports : List IOSpec) (name : String) (size : Int) : List IOSpec :=
  if ports.any (·.name = name) then ports
  else ports.orderedInsert (fun a b => ¬ keyLt b.name a.name) (IOSpec.declare name size)

def updatePort (ports : List IOSpec) (name : String) (f : IOSpec → IOSpec) : List IOSpec :=
  ports.map fun io => if io.name = name then f io else io

/-- The operator state the lowering reads and writes; the execution specs hold the name of the
port that `input_exec_spec()` / `output_exec_spec()` point to. -/
structure Operator where
  name : String
  operatorType : OperatorType
  spec : OperatorSpec
  inputExecSpec : Option String
  outputExecSpec : Option String
  metadataPolicy : MetadataPolicy
  nonDefaultInputPorts : List String
  nonDefaultOutputPorts : List String
  deriving DecidableEq, Repr

/-- How a step of the lowering stops: an exception, a logged error with `return false`, or the
dereference of a null pointer. -/
inductive Abort
  | exception (msg : String)
  | returnFalse (msg : String)
  | undefined (what : String)
  deriving DecidableEq, Repr

abbrev PortMap := List (String × List String)

namespace PortMap

/-- The target set of output port `p`, empty when `p` is not a key. -/
def targets (pm : PortMap) (p : String) : List String := ((pm.find? (·.1 = p)).map (·.2)).getD []

def erase (pm : PortMap) (p : String) : PortMap := pm.filter (·.1 ≠ p)

theorem targets_of_mem {pm : PortMap} {p : String} {ts : List String} (hk : (pm.map (·.1)).Nodup)
    (h : (p,ts) ∈ pm) : pm.targets p = ts := by
  induction pm with
  | nil => cases h
  | cons x pm ih =>
    rw [List.map_cons,List.nodup_cons] at hk
    rcases List.mem_cons.mp h with rfl | h
    · simp [targets]
    · have hx : x.1 ≠ p := fun hx => hk.1 (hx ▸ List.mem_map_of_mem _ h)
      simpa [targets,hx] using ih hk.2 h

@[simp] theorem mem_erase {pm : PortMap} {p : String} {x : String × List String} :
    x ∈ pm.erase p ↔ x ∈ pm ∧ x.1 ≠ p := by
  simp [erase]

theorem erase_keys_nodup {pm : PortMap} (p : String) (hk : (pm.map (·.1)).Nodup) :
    ((pm.erase p).map (·.1)).Nodup :=
  hk.sublist ((List.filter_sublist pm).map _)

end PortMap

/-- The port map of a control-flow edge: the output execution port to the input one. -/
def controlFlowPortMap : PortMap := [(kOutputExecPortName,[kInputExecPortName])]

theorem findPort_eq_some {ports : List IOSpec} {name : String} {io : IOSpec}
    (h : findPort ports name = some io) : io ∈ ports ∧ io.name = name := by
  unfold findPort at h
  exact ⟨List.mem_of_find?_eq_some h,by simpa using List.find?_some h⟩

@[simp] theorem any_addPort (ports : List IOSpec) (name : String) (size : Int) (n : String) :
    (addPort ports name size).any (·.name = n) = (ports.any (·.name = n) || decide (name = n)) := by
  unfold addPort
  split_ifs with h
  · by_cases hn : name = n
    · subst hn; simp_all
    · simp [hn]
  · rw [Bool.eq_iff_iff]
    simp [List.mem_orderedInsert,IOSpec.declare,or_and_right,exists_or,or_comm]

/-- What the fan-out check of the wiring reads of an operator: its type, and the names and
connector kinds of its outputs in order. -/
def outputShape (o : Operator) : OperatorType × List (String × ConnectorType) :=
  (o.operatorType,o.spec.outputs.map fun io => (io.name,io.connectorType))

/-- Whether output `sp` of `o`, as `spec()->outputs()[sp]` finds it, has a UCX connector. -/
def isUcxOutput (o : Operator) (sp : String) : Bool :=
  (findPort o.spec.outputs sp).any (·.connectorType = .kUCX)

theorem isUcxOutput_iff {o : Operator} {sp : String} :
    isUcxOutput o sp ↔ ∃ io, findPort o.spec.outputs sp = some io ∧ io.connectorType = .kUCX := by
  unfold isUcxOutput
  cases findPort o.spec.outputs sp <;> simp

theorem isUcxOutput_eq (o : Operator) (sp : String) :
    isUcxOutput o sp = ((outputShape o).2.find? (·.1 = sp)).any (·.2 = .kUCX) := by
  simp only [isUcxOutput,outputShape,findPort,List.find?_map,Function.comp_def]
  cases List.find? (fun io => decide (io.name = sp)) o.spec.outputs <;> rfl

theorem isUcxOutput_of_outputShape {o o' : Operator} (h : outputShape o' = outputShape o) (sp : String) :
    isUcxOutput o' sp = isUcxOutput o sp := by
  rw [isUcxOutput_eq,isUcxOutput_eq,h]

theorem operatorType_of_outputShape {o o' : Operator} (h : outputShape o' = outputShape o) :
    o'.operatorType = o.operatorType :=
  congrArg Prod.fst h

/-! ### Lists related elementwise, and updated ports -/

theorem forall₂_exists_left {β γ : Type} {R : β → γ → Prop} {xs : List β} {ys : List γ}
    (h : List.Forall₂ R xs ys) {x : β} (hx : x ∈ xs) : ∃ y ∈ ys, R x y := by
  induction h with
  | nil => cases hx
  | cons hr _ ih =>
    rcases List.mem_cons.mp hx with rfl | hx
    · exact ⟨_,List.mem_cons_self _ _,hr⟩
    · obtain ⟨y,hy,hr⟩ := ih hx
      exact ⟨y,List.mem_cons_of_mem _ hy,hr⟩

theorem map_eq_of_forall₂ {β γ δ : Type} {R : β → γ → Prop} {f : β → δ} {g : γ → δ} {xs : List β}
    {ys : List γ} (h : List.Forall₂ R xs ys) (hfg : ∀ x y, R x y → g y = f x) : ys.map g = xs.map f := by
  induction h with
  | nil => rfl
  | cons hr _ ih => simp [hfg _ _ hr,ih]

theorem forall₂_exists_right {β γ : Type} {R : β → γ → Prop} {xs : List β} {ys : List γ}
    (h : List.Forall₂ R xs ys) {y : γ} (hy : y ∈ ys) : ∃ x ∈ xs, R x y := by
  induction h with
  | nil => cases hy
  | cons hr _ ih =>
    rcases List.mem_cons.mp hy with rfl | hy
    · exact ⟨_,List.mem_cons_self _ _,hr⟩
    · obtain ⟨x,hx,hr⟩ := ih hy
      exact ⟨x,List.mem_cons_of_mem _ hx,hr⟩

theorem mem_updatePort {ports : List IOSpec} {name : String} {f : IOSpec → IOSpec} {io : IOSpec} (h : io ∈ updatePort ports name f)
    (hn : io.name = name) : ∃ io₀ ∈ ports, io₀.name = name ∧ io = f io₀ := by
  obtain ⟨io₀,h₀,rfl⟩ := List.mem_map.mp h
  by_cases h' : io₀.name = name
  · exact ⟨io₀,h₀,h',if_pos h'⟩
  · rw [if_neg h'] at hn
    exact absurd hn h'

theorem mem_updatePort_of_mem {ports : List IOSpec} {name : String} {f : IOSpec → IOSpec}
    {io : IOSpec} (h : io ∈ ports) (hn : io.name = name) : f io ∈ updatePort ports name f :=
  List.mem_map.mpr ⟨io,h,if_pos hn⟩

theorem map_updatePort {β : Type} {ports : List IOSpec} {name : String} {f : IOSpec → IOSpec}
    {k : IOSpec → β} (hf : ∀ io, k (f io) = k io) : (updatePort ports name f).map k = ports.map k := by
  unfold updatePort
  simp only [List.map_map,Function.comp_def]
  congr 1
  funext io
  split_ifs <;> simp [hf]

theorem findPort_updatePort {ports : List IOSpec} {name : String} {f : IOSpec → IOSpec}
    (hf : ∀ io, (f io).name = io.name) (q : String) :
    findPort (updatePort ports name f) q =
      (findPort ports q).map fun io => if io.name = name then f io else io := by
  unfold findPort updatePort
  rw [List.find?_map]
  congr 2
  funext io
  simp only [Function.comp]
  split_ifs <;> simp [hf]

end HoloscanLowering
