import HoloscanLowering.Operator

/-! `GXFExecutor::initialize_operator` for an operator of a Holoscan application: the receiver,
transmitter and default condition of every port (`create_input_port`, `create_output_port`,
without the `bind_port` path of operators wrapped as GXF codelets), and the metadata policy
default. -/
namespace HoloscanLowering
namespace InitializeOperator

def resolvedQueueSize (count : Nat) (io : IOSpec) : Int :=
  if io.queueSize = IOSpec.kPrecedingCount then count else io.queueSize

def inputConditionKind : ConditionType → Bool
  | .kMessageAvailable | .kExpiringMessageAvailable | .kMultiMessageAvailableTimeout | .kNone => true
  | _ => false

def outputConditionKind : ConditionType → Bool
  | .kDownstreamMessageAffordable | .kNone => true
  | _ => false

/-- Whether `create_input_port` adds the default `MessageAvailable` condition: the port has no
condition, no multi-port condition names it, and no user condition's arguments name it. -/
def takesDefaultCondition (op : Operator) (io : IOSpec) : Bool :=
  io.conditions.isEmpty && op.spec.multiPortConditions.all (fun c => io.name ∉ c.portNames) &&
    io.name ∉ op.nonDefaultInputPorts

/-- `GXFExecutor::create_input_port`: a `kAnySize` port gets no receiver; a resolved size below
one throws; a `kDefault` connector becomes a `DoubleBufferReceiver` of that capacity; the
default condition gets the size as `min_size`. -/
def createInputPort (op : Operator) (count : Nat) (io : IOSpec) : Except Abort IOSpec :=
  if io.queueSize = IOSpec.kAnySize then .ok io else
  let q := resolvedQueueSize count io
  if q < 1 then
    let n := op.name
    let rx := io.name
    .error (.exception s!"Invalid queue size: {q} (op: \x27{n}\x27, input port: \x27{rx}\x27)")
  else
    let io' := if io.connectorType = .kDefault then { io with capacity := some q } else io
    let io' := if takesDefaultCondition op io then
      { io' with conditions := [⟨.kMessageAvailable,q.toNat⟩] } else io'
    if io'.conditions.all (inputConditionKind ·.kind) then .ok io'
    else .error (.exception "Unsupported condition type")

/-- `GXFExecutor::create_output_port`: the default `DownstreamMessageAffordable` condition with
`min_size` one, except on a UCX port or one a user condition names. -/
def createOutputPort (op : Operator) (io : IOSpec) : Except Abort IOSpec :=
  let io' := if io.conditions.isEmpty && io.connectorType ≠ .kUCX && io.name ∉ op.nonDefaultOutputPorts
    then { io with conditions := [⟨.kDownstreamMessageAffordable,1⟩] } else io
  if io'.conditions.all (outputConditionKind ·.kind) then .ok io'
  else .error (.exception "Unsupported condition type")

/-- The multi-port loop of `initialize_operator`: the conditions it adds to the operator, in
order. A condition naming a port that is not an input is skipped with a `break` that leaves
the whole loop; a kind other than the two multi-message ones throws (the kind's number in the
message is not kept, `ConditionType` having only the kinds the lowering tests). -/
def addMultiPortConditions (inputs : List IOSpec) :
    List MultiPortCondition → Except Abort (List MultiPortCondition)
  | [] => .ok []
  | c :: cs =>
    if (c.portNames.takeWhile fun n => (findPort inputs n).isSome).length ≠ c.portNames.length then .ok []
    else match c.kind with
      | .kMultiMessageAvailable | .kMultiMessageAvailableTimeout =>
        (addMultiPortConditions inputs cs).map (c :: ·)
      | _ => .error (.exception "Condition type is not a supported multi-message condition")

/-- `GXFExecutor::initialize_operator`: the fragment's policy replaces `kDefault`, then every
input and every output port is created in the spec's order, then the multi-port conditions
are added. `count rx` is the number of connections into input `rx`. -/
def initializeOperator (policy : MetadataPolicy) (count : String → Nat) (op : Operator) :
    Except Abort Operator := do
  let op := if op.metadataPolicy = .kDefault then { op with metadataPolicy := policy } else op
  let inputs ← op.spec.inputs.mapM fun io => createInputPort op (count io.name) io
  let outputs ← op.spec.outputs.mapM (createOutputPort op)
  let _ ← addMultiPortConditions op.spec.inputs op.spec.multiPortConditions
  pure { op with spec := { op.spec with inputs := inputs, outputs := outputs } }

/-! ### What a successful `initialize()` leaves -/

@[simp] theorem resolvedQueueSize_sizeOne (count : Nat) {io : IOSpec}
    (h : io.queueSize = IOSpec.kSizeOne) : resolvedQueueSize count io = 1 := by
  simp [resolvedQueueSize,h,IOSpec.kSizeOne,IOSpec.kPrecedingCount]

/-- A created input port keeps its name, size and connector kind; unless it is `kAnySize`, its
resolved size is at least one, a `kDefault` receiver gets it as capacity, and the port either
keeps its conditions or takes the default one with the size as `min_size`. -/
theorem createInputPort_ok {op : Operator} {count : Nat} {io io' : IOSpec}
    (h : createInputPort op count io = .ok io') :
    io'.name = io.name ∧ io'.queueSize = io.queueSize ∧ io'.connectorType = io.connectorType ∧
      (io.queueSize ≠ IOSpec.kAnySize → 1 ≤ resolvedQueueSize count io ∧
        (io.connectorType = .kDefault → io'.capacity = some (resolvedQueueSize count io)) ∧
        io'.conditions = if takesDefaultCondition op io
          then [⟨.kMessageAvailable,(resolvedQueueSize count io).toNat⟩] else io.conditions) := by
  unfold createInputPort at h
  dsimp only at h
  split_ifs at h <;> cases h <;> simp_all

theorem initializeOperator_ok {policy : MetadataPolicy} {count : String → Nat} {op op' : Operator}
    (h : initializeOperator policy count op = .ok op') :
    ∃ ins outs, op' = { op with
        metadataPolicy := if op.metadataPolicy = .kDefault then policy else op.metadataPolicy
        spec := { op.spec with inputs := ins, outputs := outs } } ∧
      List.Forall₂ (fun io io' => createInputPort op (count io.name) io = .ok io') op.spec.inputs ins ∧
      List.Forall₂ (fun io io' => createOutputPort op io = .ok io') op.spec.outputs outs := by
  unfold initializeOperator at h
  obtain ⟨ins,hins,h⟩ := (bind_eq_ok _ _ _).mp h
  obtain ⟨outs,houts,h⟩ := (bind_eq_ok _ _ _).mp h
  obtain ⟨_,-,h⟩ := (bind_eq_ok _ _ _).mp h
  dsimp only at h
  cases (pure_eq_ok _ _).mp h
  refine ⟨ins,outs,?_,?_,?_⟩
  · split_ifs <;> rfl
  · split_ifs at hins <;> exact mapM_ok_forall₂ hins
  · split_ifs at houts <;> exact mapM_ok_forall₂ houts

theorem createOutputPort_ok {op : Operator} {io io' : IOSpec} (h : createOutputPort op io = .ok io') :
    io'.name = io.name ∧ io'.connectorType = io.connectorType := by
  unfold createOutputPort at h
  dsimp only at h
  split_ifs at h <;> cases h <;> exact ⟨rfl,rfl⟩

theorem initializeOperator_outputShape {policy : MetadataPolicy} {count : String → Nat}
    {op op' : Operator} (h : initializeOperator policy count op = .ok op') :
    outputShape op' = outputShape op := by
  obtain ⟨ins,outs,rfl,-,houts⟩ := initializeOperator_ok h
  refine congrArg (op.operatorType,·) (map_eq_of_forall₂ houts fun io io' h => ?_)
  rw [(createOutputPort_ok h).1,(createOutputPort_ok h).2]

/-! ### The multi-port conditions added -/

/-- With only multi-message kinds, the loop adds the conditions before the first that names a
port which is not an input, and none from there on. -/
theorem addMultiPortConditions_eq_takeWhile {inputs : List IOSpec} {conds : List MultiPortCondition}
    (hk : ∀ c ∈ conds, c.kind = .kMultiMessageAvailable ∨ c.kind = .kMultiMessageAvailableTimeout) :
    addMultiPortConditions inputs conds =
      .ok (conds.takeWhile fun c => c.portNames.all fun n => (findPort inputs n).isSome) := by
  induction conds with
  | nil => rfl
  | cons c cs ih =>
    have ih := ih fun c' hc' => hk c' (List.mem_cons_of_mem c hc')
    have hlen : (c.portNames.takeWhile fun n => (findPort inputs n).isSome).length = c.portNames.length ↔
        (c.portNames.all fun n => (findPort inputs n).isSome) = true := by
      rw [List.all_eq_true,← List.takeWhile_eq_self_iff]
      exact ⟨(List.takeWhile_prefix _).eq_of_length,congrArg List.length⟩
    by_cases ha : (c.portNames.all fun n => (findPort inputs n).isSome) = true
    · rcases hk c (List.mem_cons_self c cs) with hc | hc <;>
        simp [addMultiPortConditions,hlen.mpr ha,hc,ih,List.takeWhile_cons,ha,Except.map]
    · simp [addMultiPortConditions,mt hlen.mp ha,List.takeWhile_cons,ha]

def twoInputs : List IOSpec := [IOSpec.declare "in1" IOSpec.kSizeOne,IOSpec.declare "in2" IOSpec.kSizeOne]

def inOrderConditions : List MultiPortCondition :=
  [⟨.kMultiMessageAvailable,["in1"]⟩,⟨.kMultiMessageAvailableTimeout,["in1","in2"]⟩,
    ⟨.kMultiMessageAvailable,["typo"]⟩,⟨.kMultiMessageAvailable,["in2"]⟩]

theorem inOrderConditions_added :
    (∀ c ∈ inOrderConditions, c.kind = .kMultiMessageAvailable ∨ c.kind = .kMultiMessageAvailableTimeout) ∧
      addMultiPortConditions twoInputs inOrderConditions =
        .ok (inOrderConditions.takeWhile fun c => c.portNames.all fun n => (findPort twoInputs n).isSome) :=
  ⟨by decide,addMultiPortConditions_eq_takeWhile (by decide)⟩

/-- An operator with inputs `in1` and `in2`, whose first multi-port condition names a port
`typo` it lacks, and whose second names `in1` and `in2`. -/
def typoConditionOp : Operator :=
  ⟨"op",.kNative,⟨[IOSpec.declare "in1" IOSpec.kSizeOne,IOSpec.declare "in2" IOSpec.kSizeOne],[],[],
    [⟨.kMultiMessageAvailable,["typo"]⟩,⟨.kMultiMessageAvailable,["in1","in2"]⟩]⟩,none,none,.kDefault,[],[]⟩

/-- The loop breaks at the malformed first condition and adds none, while both inputs, named by
the well-formed second one, get no default condition: they are left without any. -/
theorem typoCondition_leaves_inputs_ungoverned :
    addMultiPortConditions typoConditionOp.spec.inputs typoConditionOp.spec.multiPortConditions = .ok [] ∧
      ∃ o, initializeOperator .kDefault (fun _ => 1) typoConditionOp = .ok o ∧
        o.spec.inputs.map (·.conditions) = [[],[]] :=
  ⟨rfl,_,rfl,rfl⟩

/-! ### What a failed `initialize()` throws -/

theorem createInputPort_error {op : Operator} {count : Nat} {io : IOSpec} {e : Abort}
    (h : createInputPort op count io = .error e) : ∃ m, e = .exception m := by
  unfold createInputPort at h
  dsimp only at h
  split_ifs at h <;> cases h <;> exact ⟨_,rfl⟩

theorem createOutputPort_error {op : Operator} {io : IOSpec} {e : Abort}
    (h : createOutputPort op io = .error e) : ∃ m, e = .exception m := by
  unfold createOutputPort at h
  dsimp only at h
  split_ifs at h <;> cases h <;> exact ⟨_,rfl⟩

theorem addMultiPortConditions_error {inputs : List IOSpec} {conds : List MultiPortCondition}
    {e : Abort} (h : addMultiPortConditions inputs conds = .error e) : ∃ m, e = .exception m := by
  induction conds with
  | nil => cases h
  | cons c cs ih =>
    unfold addMultiPortConditions at h
    split_ifs at h
    split at h
    · exact ih ((map_eq_error _ _ _).mp h)
    · exact ih ((map_eq_error _ _ _).mp h)
    · cases h
      exact ⟨_,rfl⟩

theorem initializeOperator_error {policy : MetadataPolicy} {count : String → Nat} {op : Operator}
    {e : Abort} (h : initializeOperator policy count op = .error e) : ∃ m, e = .exception m := by
  unfold initializeOperator at h
  rcases (bind_eq_error _ _ _).mp h with h | ⟨_,-,h⟩
  · obtain ⟨_,-,h⟩ := mapM_error h
    exact createInputPort_error h
  rcases (bind_eq_error _ _ _).mp h with h | ⟨_,-,h⟩
  · obtain ⟨_,-,h⟩ := mapM_error h
    exact createOutputPort_error h
  rcases (bind_eq_error _ _ _).mp h with h | ⟨_,-,h⟩
  · exact addMultiPortConditions_error h
  · cases h

end InitializeOperator
end HoloscanLowering
