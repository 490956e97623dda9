import HoloscanLowering.InitializeFragment

/-! The distributed lowering of a fragment before `initialize_fragment`: the virtual and forward
operators that `create_virtual_operators_and_connections` adds for the inter-fragment
connections, the names they and the broadcast entities get, and the UCX connectors that
`connect_ucx_transmitters_to_virtual_ops` puts on the outputs feeding virtual transmitters. -/
namespace HoloscanLowering
namespace Distributed

open InitializeFragment

inductive IOType
  | kInput
  | kOutput
  deriving DecidableEq, Repr

/-! ### Synthetic names -/

def virtualOpName (op port : String) (index : Nat) : String := s!"virtual_{op}_{port}_{index}"

/-- `forward_{op}_{port}`, or with `param_index` the index of the port it adds to a
`std::vector<IOSpec*>` parameter, `forward_{op}_{port}:{param_index}`. -/
def forwardOpName (op port : String) : Option Nat → String
  | none => s!"forward_{op}_{port}"
  | some k => s!"forward_{op}_{port}:{k}"

def broadcastEntityName (entityPrefix op port : String) : String :=
  s!"{entityPrefix}_broadcast_{op}_{port}"

/-- The operators `create_virtual_operators_and_connections` makes for the inter-fragment
connections `conns` of port `port` of `o`, by name, from connection index `index` on: a virtual
operator for each, and for an input a forward operator after it. When `port` is not an input of
`o` or is `kAnySize`, the forward operator's `add_flow` adds a port to the parameter `port`,
whose length so far is `size`; a parameter that is not a `std::vector<IOSpec*>` fails the
`std::any_cast`. -/
def portOperatorNames (o : Operator) (port : String) : Nat → Nat → List IOType → Except Abort (List String)
  | _, _, [] => .ok []
  | index, size, .kOutput :: conns =>
    (portOperatorNames o port (index+1) size conns).map (virtualOpName o.name port index :: ·)
  | index, size, .kInput :: conns =>
    if (findPort o.spec.inputs port).all (·.queueSize = IOSpec.kAnySize) then
      if o.spec.receivers.any (·.1 = port) then
        (portOperatorNames o port (index+1) (size+1) conns).map
          (virtualOpName o.name port index :: forwardOpName o.name port (some size) :: ·)
      else .error (.exception "bad any_cast")
    else
      (portOperatorNames o port (index+1) size conns).map
        (virtualOpName o.name port index :: forwardOpName o.name port none :: ·)

/-- The names of the operators `create_virtual_operators_and_connections` makes for a
connection map, its operators with their ports and each port's connections in order. -/
def virtualOperatorNames (connectionMap : List (Operator × List (String × List IOType))) :
    Except Abort (List String) :=
  (connectionMap.mapM fun (e : Operator × List (String × List IOType)) => e.2.mapM fun pc =>
    portOperatorNames e.1 pc.1 0 (((e.1.spec.receivers.find? (·.1 = pc.1)).map (·.2.length)).getD 0) pc.2).map
    fun names => names.flatten.flatten

def plainOp (name : String) (inputs outputs : List String) : Operator :=
  ⟨name,.kNative,⟨inputs.map (IOSpec.declare · IOSpec.kSizeOne),outputs.map (IOSpec.declare · IOSpec.kSizeOne),[],[]⟩,
    none,none,.kDefault,[],[]⟩

/-- Operators `a_b` with output `c` and `a` with output `b_c`, each sending to another fragment,
and an operator `x` whose input `in` receives from two other fragments: both virtual
transmitters are `virtual_a_b_c_0`, and both forward operators into `x` are `forward_x_in`. -/
theorem underscore_and_forward_names_collide :
    virtualOperatorNames [(plainOp "a_b" [] ["c"],[("c",[.kOutput])]),(plainOp "a" [] ["b_c"],[("b_c",[.kOutput])]),
        (plainOp "x" ["in"] [],[("in",[.kInput,.kInput])])] =
      .ok ["virtual_a_b_c_0","virtual_a_b_c_0","virtual_x_in_0","forward_x_in","virtual_x_in_1","forward_x_in"] :=
  rfl

/-! ### UCX connectors of the virtual transmitters -/

/-- A virtual operator the lowering made: its node, the port it stands for, whether it is a
transmitter (`kOutput`) or a receiver, and the connector kind it was made with. -/
structure VirtualOp (α : Type) where
  node : α
  portName : String
  ioType : IOType
  connectorType : ConnectorType

variable {α : Type} [DecidableEq α]

/-- `connection_count`: the successors of `last` whose port map has the key `port`, as
`port_map->count(port)` counts it, once per map. -/
def portConnectionCount (G : OperatorGraph α) (last : α) (port : String) : Nat :=
  (G.nextNodes last).countP fun op => ((G.portMap last op).getD []).any (·.1 = port)

def setOutputConnector (G : OperatorGraph α) (x : α) (port : String) (ty : ConnectorType) :
    OperatorGraph α where
  toDigraph := G.toDigraph
  ops := Function.update G.ops x { G.ops x with spec := { (G.ops x).spec with
    outputs := updatePort (G.ops x).spec.outputs port fun io => { io with connectorType := ty } } }
  portMap := G.portMap
  portMap_isSome := G.portMap_isSome
  inputExec_mem v hv := by
    by_cases h : v = x
    · subst h
      simpa using G.inputExec_mem v hv
    · simpa [Function.update_noteq h] using G.inputExec_mem v hv

@[simp] theorem setOutputConnector_operatorType (G : OperatorGraph α) (x : α) (port : String)
    (ty : ConnectorType) (y : α) :
    ((setOutputConnector G x port ty).ops y).operatorType = (G.ops y).operatorType := by
  by_cases h : y = x
  · subst h
    simp [setOutputConnector]
  · simp [setOutputConnector,Function.update_noteq h]

/-- One pass of the loop of `connect_ucx_transmitters_to_virtual_ops`: a transmitter whose
upstream port feeds one successor only passes its connector to that port. The upstream operator
is `get_previous_nodes(virtual_op)[0]`, read past the end when there is none; a port it lacks
is a null `IOSpec`. -/
def connectUcxTransmitter (G : OperatorGraph α) (vop : VirtualOp α) : Except Abort (OperatorGraph α) :=
  match vop.ioType, G.prevNodes vop.node with
  | .kInput, _ => pure G
  | .kOutput, [] => .error (.undefined "get_previous_nodes(virtual_op)[0] of an empty vector")
  | .kOutput, last :: _ =>
    if portConnectionCount G last vop.portName = 1 then do
      let _ ← outputSpec (G.ops last) vop.portName
      pure (setOutputConnector G last vop.portName vop.connectorType)
    else pure G

def connectUcxTransmittersToVirtualOps (G : OperatorGraph α) (virtualOps : List (VirtualOp α)) :
    Except Abort (OperatorGraph α) :=
  virtualOps.foldlM connectUcxTransmitter G

theorem connectUcxTransmitter_ok {G G' : OperatorGraph α} {vop : VirtualOp α}
    (h : connectUcxTransmitter G vop = .ok G') :
    G' = G ∨ vop.ioType = .kOutput ∧ ∃ last rest, G.prevNodes vop.node = last :: rest ∧
      portConnectionCount G last vop.portName = 1 ∧
      G' = setOutputConnector G last vop.portName vop.connectorType := by
  unfold connectUcxTransmitter at h
  split at h
  · exact .inl ((pure_eq_ok _ _).mp h).symm
  · cases h
  · rename_i last rest hio hprev
    split_ifs at h with hc
    · obtain ⟨_,-,h⟩ := (bind_eq_ok _ _ _).mp h
      exact .inr ⟨hio,last,rest,hprev,hc,((pure_eq_ok _ _).mp h).symm⟩
    · exact .inl ((pure_eq_ok _ _).mp h).symm

omit [DecidableEq α] in
theorem eq_of_portConnectionCount_eq_one {G : OperatorGraph α} {last n v : α} {port : String}
    (h : portConnectionCount G last port = 1) (hn : n ∈ G.nextNodes last)
    (hkn : ((G.portMap last n).getD []).any (·.1 = port)) (hkv : ((G.portMap last v).getD []).any (·.1 = port)) :
    v = n := by
  rw [portConnectionCount,List.countP_eq_length_filter,List.length_eq_one] at h
  obtain ⟨a,ha⟩ := h
  have hmem : ∀ y ∈ G.nextNodes last, ((G.portMap last y).getD []).any (·.1 = port) → y = a :=
    fun y hy hk => List.mem_singleton.mp (ha ▸ List.mem_filter.mpr ⟨hy,hk⟩)
  obtain ⟨y,hy,-⟩ := List.any_eq_true.mp hkv
  rw [hmem v (G.mem_next_of_mem_portMap hy) hkv,hmem n hn hkn]

theorem isUcxOutput_setOutputConnector {G : OperatorGraph α} {x y : α} {port sp : String}
    {ty : ConnectorType} (h : isUcxOutput ((setOutputConnector G x port ty).ops y) sp) :
    isUcxOutput (G.ops y) sp ∨ y = x ∧ sp = port := by
  by_cases hy : y = x
  · subst hy
    obtain ⟨io',hf,hu⟩ := isUcxOutput_iff.mp h
    simp only [setOutputConnector,Function.update_same] at hf
    rw [findPort_updatePort (f := fun io => { io with connectorType := ty }) (fun _ => rfl),Option.map_eq_some'] at hf
    obtain ⟨io,hf,rfl⟩ := hf
    by_cases hn : io.name = port
    · exact .inr ⟨rfl,(findPort_eq_some hf).2 ▸ hn⟩
    · rw [if_neg hn] at hu
      exact .inl (isUcxOutput_iff.mpr ⟨io,hf,hu⟩)
  · simp only [setOutputConnector,Function.update_noteq hy] at h
    exact .inl h

/-- What the loop keeps: the graph and its operators' types, and a UCX connector only on an
output whose key no edge into a non-virtual operator has. -/
structure UcxInv (G₀ G : OperatorGraph α) : Prop where
  toDigraph : G.toDigraph = G₀.toDigraph
  portMap : G.portMap = G₀.portMap
  operatorType : ∀ x, (G.ops x).operatorType = (G₀.ops x).operatorType
  ucx : ∀ x ∈ G₀.nodes, ∀ sp, isUcxOutput (G.ops x) sp → ∀ v, (G₀.ops v).operatorType ≠ .kVirtual →
    ((G₀.portMap x v).getD []).any (·.1 = sp) = false

omit [DecidableEq α] in
theorem UcxInv.initial {G₀ : OperatorGraph α}
    (huser : ∀ x ∈ G₀.nodes, ∀ io ∈ (G₀.ops x).spec.outputs, io.connectorType ≠ .kUCX) : UcxInv G₀ G₀ := by
  refine ⟨rfl,rfl,fun _ => rfl,fun x hx sp hu => ?_⟩
  obtain ⟨io,hf,hu⟩ := isUcxOutput_iff.mp hu
  exact absurd hu (huser x hx io (findPort_eq_some hf).1)

/-- A pass of the loop keeps the invariant when the transmitter is a virtual operator joined to
its predecessors by an edge with its port as key, as `create_virtual_operators_and_connections`
makes it. -/
theorem UcxInv.step {G₀ G G' : OperatorGraph α} {vop : VirtualOp α} (hI : UcxInv G₀ G)
    (hvop : vop.ioType = .kOutput → (G₀.ops vop.node).operatorType = .kVirtual ∧
      ∀ u ∈ G₀.prevNodes vop.node, ((G₀.portMap u vop.node).getD []).any (·.1 = vop.portName))
    (h : connectUcxTransmitter G vop = .ok G') : UcxInv G₀ G' := by
  rcases connectUcxTransmitter_ok h with rfl | ⟨hio,last,rest,hprev,hc,rfl⟩
  · exact hI
  obtain ⟨hvirt,hkey⟩ := hvop hio
  have hlast : last ∈ G₀.prevNodes vop.node := by
    rw [← hI.toDigraph,hprev]
    exact List.mem_cons_self _ _
  refine ⟨hI.toDigraph,hI.portMap,fun x => by simp [hI.operatorType],fun x hx sp hu v hv => ?_⟩
  rcases isUcxOutput_setOutputConnector hu with hu | ⟨rfl,rfl⟩
  · exact hI.ucx x hx sp hu v hv
  · rw [Bool.eq_false_iff]
    intro hkv
    have hn : vop.node ∈ G.nextNodes x := by
      rw [hI.toDigraph]
      exact G₀.mem_prev.mp hlast
    rw [← hI.portMap] at hkv
    have := eq_of_portConnectionCount_eq_one hc hn (hI.portMap ▸ hkey x hlast) hkv
    exact hv (this ▸ hvirt)

omit [DecidableEq α] in
theorem UcxInv.ucxSingleTarget {G₀ G : OperatorGraph α} (hI : UcxInv G₀ G) :
    UcxSingleTarget G.ops G.portMap := by
  intro u v hu _ x hx hucx
  have hu₀ : u ∈ G₀.nodes := hI.toDigraph ▸ (G.mem_nodes (G.mem_next_of_mem_portMap hx)).1
  have hkey := hI.ucx u hu₀ x.1 hucx v (hI.operatorType v ▸ ‹_›)
  rw [← hI.portMap,Bool.eq_false_iff] at hkey
  exact (hkey (List.any_eq_true.mpr ⟨x,hx,by simp⟩)).elim

/-- For every operator graph whose output connectors the user left without UCX, and whose
virtual transmitters are virtual operators joined to their predecessors by an edge with their
port as key, as `create_virtual_operators_and_connections` makes them, `initialize_fragment`
on the graph that `connect_ucx_transmitters_to_virtual_ops` leaves never fails with the UCX
fan-out abort: a port gets a UCX connector only when the transmitter's edge is its one edge
with the port as key, and the direct wiring skips edges into virtual operators. -/
theorem ucx_fan_out_check_unreached {G₀ G : OperatorGraph α} {virtualOps : List (VirtualOp α)}
    (huser : ∀ x ∈ G₀.nodes, ∀ io ∈ (G₀.ops x).spec.outputs, io.connectorType ≠ .kUCX)
    (hvirtual : ∀ vop ∈ virtualOps, vop.ioType = .kOutput →
      (G₀.ops vop.node).operatorType = .kVirtual ∧
        ∀ u ∈ G₀.prevNodes vop.node, ((G₀.portMap u vop.node).getD []).any (·.1 = vop.portName))
    (h : connectUcxTransmittersToVirtualOps G₀ virtualOps = .ok G) (policy : MetadataPolicy)
    (n sp : String) : initializeFragment G policy ≠ .failed (ucxFanOutAbort n sp) :=
  ucxFanOut_unreached (foldlM_ok_induction (UcxInv G₀)
    (fun _ vop _ hv hI h => hI.step (hvirtual vop hv) h) (.initial huser) h).ucxSingleTarget policy n sp

def ucxSource : OperatorGraph Nat :=
  .ofEdges [0,1,2]
    (fun v => if v = 0 then plainOp "tx" [] ["out","log"]
      else if v = 1 then { plainOp "virtual_tx_out_0" ["out"] [] with operatorType := .kVirtual }
      else plainOp "rx" ["in"] [])
    [(0,1,[("out",["out"])]),(0,2,[("log",["in"])])] (by decide) (by decide) (by decide)

def ucxSourceTransmitter : VirtualOp Nat := ⟨1,"out",.kOutput,.kUCX⟩

theorem ucxSource_fan_out_unreached :
    (∀ x ∈ ucxSource.nodes, ∀ io ∈ (ucxSource.ops x).spec.outputs, io.connectorType ≠ .kUCX) ∧
      (∀ vop ∈ [ucxSourceTransmitter], vop.ioType = .kOutput →
        (ucxSource.ops vop.node).operatorType = .kVirtual ∧
          ∀ u ∈ ucxSource.prevNodes vop.node, ((ucxSource.portMap u vop.node).getD []).any (·.1 = vop.portName)) ∧
      ∃ G, connectUcxTransmittersToVirtualOps ucxSource [ucxSourceTransmitter] = .ok G ∧
        isUcxOutput (G.ops 0) "out" ∧ ∀ n sp, initializeFragment G .kDefault ≠ .failed (ucxFanOutAbort n sp) := by
  have h : connectUcxTransmittersToVirtualOps ucxSource [ucxSourceTransmitter] = .ok _ := rfl
  exact ⟨by decide,by decide,_,h,by decide,ucx_fan_out_check_unreached (by decide) (by decide) h .kDefault⟩

end Distributed
end HoloscanLowering
