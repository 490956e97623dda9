import HoloscanLowering.InitializeFragment
/-! The network part of `GXFExecutor::initialize_gxf_graph`, run on the operators and broadcast
entities that `initialize_fragment` left. Without a network context it throws if an operator or
a broadcast entity uses UCX; the transmitters of the broadcast entities are UCX ones only for a
source port with a UCX connector or towards a virtual operator, so for a fragment without
virtual operators the check reads the operators' ports alone. -/
namespace HoloscanLowering
namespace NetworkContext

open InitializeOperator Worklist InitializeFragment

variable {α : Type} [DecidableEq α]

/-- Whether an operator has an input or an output with a UCX connector: the two loops of the
branch with a network context, which `Operator::has_ucx_connector` (absent from src) of the
other branch is taken to be. -/
def hasUcxConnector (o : Operator) : Bool :=
  o.spec.inputs.any (·.connectorType = .kUCX) || o.spec.outputs.any (·.connectorType = .kUCX)

/-- `has_ucx_connector(broadcast_entity)`: the entity's receiver is a double buffer, so it holds
a UCX connector when one of its transmitters is a UCX transmitter. -/
def broadcastHasUcx (p : Plan α) (b : BroadcastEntity α) : Bool :=
  p.transmitters.any fun t => t.source = b.op && t.port = b.port && t.kind = .kUCX

def ucxErrorMsg : String := "UCX-based connection found, but there is no NetworkContext."

/-- The branch of `initialize_gxf_graph` for a fragment without a network context: the
`std::runtime_error` its two loops throw, if any. -/
def checkNoNetworkContext (G : OperatorGraph α) (p : Plan α) : Except String Unit :=
  if G.nodes.any fun v => hasUcxConnector (p.ops v) then .error ucxErrorMsg
  else if p.broadcasts.any (broadcastHasUcx p) then .error ucxErrorMsg
  else .ok ()

/-! ### The ports a visit keeps -/

def ucxShape (o : Operator) : (OperatorType × List (String × ConnectorType)) × List ConnectorType :=
  (outputShape o,o.spec.inputs.map (·.connectorType))

theorem any_map_eq {β γ : Type} (l : List β) (f : β → γ) (q : γ → Bool) :
    (l.map f).any q = l.any fun x => q (f x) := by
  induction l <;> simp_all

theorem hasUcxConnector_eq (o : Operator) :
    hasUcxConnector o = ((ucxShape o).2.any (· = .kUCX) || (ucxShape o).1.2.any (·.2 = .kUCX)) := by
  simp only [hasUcxConnector,ucxShape,outputShape,any_map_eq]

theorem hasUcxConnector_of_ucxShape {o o' : Operator} (h : ucxShape o' = ucxShape o) :
    hasUcxConnector o' = hasUcxConnector o := by
  rw [hasUcxConnector_eq,hasUcxConnector_eq,h]

theorem hasUcxConnector_of_isUcxOutput {o : Operator} {sp : String} (h : isUcxOutput o sp) :
    hasUcxConnector o := by
  obtain ⟨io,hf,hu⟩ := isUcxOutput_iff.mp h
  simp only [hasUcxConnector,Bool.or_eq_true,List.any_eq_true,decide_eq_true_eq]
  exact .inr ⟨io,(findPort_eq_some hf).1,hu⟩

theorem initialized_ucxShape {o o' : Operator} {detected self : Bool} {policy : MetadataPolicy}
    {count : String → Nat} (h : (mitigateCycle o detected self >>= fun o =>
      if o.operatorType = .kVirtual then pure o else initializeOperator policy count o) = .ok o') :
    ucxShape o' = ucxShape o := by
  refine Prod.ext (initialized_outputShape h) ?_
  obtain ⟨o₁,h₁,h⟩ := (bind_eq_ok _ _ _).mp h
  have hm : o₁.spec.inputs.map (·.connectorType) = o.spec.inputs.map (·.connectorType) := by
    rcases mitigateCycle_ok h₁ with ⟨-,rfl⟩ | ⟨q,_,-,-,-,rfl⟩
    · rfl
    · exact map_updatePort fun _ => rfl
  refine Eq.trans ?_ hm
  split at h
  · cases (pure_eq_ok _ _).mp h; rfl
  · obtain ⟨ins,outs,rfl,hins,-⟩ := initializeOperator_ok h
    exact map_eq_of_forall₂ hins fun io io' h => (createInputPort_ok h).2.2.1

/-! ### Which broadcast transmitters are UCX ones -/

/-- Every transmitter of a broadcast entity joins two operators of the graph, and a UCX one
serves a source port with a UCX connector or a virtual target. -/
def UcxTxJustified (G : OperatorGraph α) (p : Plan α) : Prop :=
  ∀ t ∈ p.transmitters, t.source ∈ G.nodes ∧ t.target ∈ G.nodes ∧
    (t.kind = .kUCX → isUcxOutput (p.ops t.source) t.port ∨ (p.ops t.target).operatorType = .kVirtual)

def TxFrame (p p' : Plan α) : Prop := p'.transmitters = p.transmitters ∧ p'.ops = p.ops

omit [DecidableEq α] in
theorem TxFrame.refl (p : Plan α) : TxFrame p p := ⟨rfl,rfl⟩

omit [DecidableEq α] in
theorem txFrame_foldlM {γ : Type} {f : Plan α → γ → Except Abort (Plan α)} {l : List γ} {p p' : Plan α}
    (hf : ∀ b x b', x ∈ l → f b x = .ok b' → TxFrame b b') (h : l.foldlM f p = .ok p') : TxFrame p p' :=
  foldlM_ok_induction (TxFrame p)
    (fun _ x _ hx hb h => ⟨(hf _ x _ hx h).1.trans hb.1,(hf _ x _ hx h).2.trans hb.2⟩) (.refl p) h

theorem connectDirect_txFrame {op prev : α} {visited : List α} {pm : PortMap} {p p' : Plan α}
    (h : connectDirect op prev visited pm p = .ok p') : TxFrame p p' := by
  refine txFrame_foldlM (fun b ⟨sp,ts⟩ b' _ hb => ?_) h
  dsimp only at hb
  obtain ⟨io,-,hb⟩ := (bind_eq_ok _ _ _).mp hb
  split at hb
  · refine txFrame_foldlM (fun c t c' _ hc => ?_) hb
    obtain ⟨_,-,hc⟩ := (bind_eq_ok _ _ _).mp hc
    cases (pure_eq_ok _ _).mp hc
    split <;> exact ⟨rfl,rfl⟩
  split at hb
  · cases hb
  · cases (pure_eq_ok _ _).mp hb
    exact .refl _

theorem connectDeferred_txFrame {op : α} {visited : List α} {conns : List (Targets α)} {p p' : Plan α}
    (h : connectDeferred op visited conns p = .ok p') : TxFrame p p' := by
  refine txFrame_foldlM (fun b ⟨sp,ty,tgts⟩ b' _ hb => ?_) h
  dsimp only at hb
  split at hb
  · cases (pure_eq_ok _ _).mp hb
    exact .refl _
  refine txFrame_foldlM (fun c ⟨n,t⟩ c' _ hc => ?_) hb
  dsimp only at hc
  split at hc
  · obtain ⟨_,-,hc⟩ := (bind_eq_ok _ _ _).mp hc
    cases (pure_eq_ok _ _).mp hc
    exact ⟨rfl,rfl⟩
  · cases (pure_eq_ok _ _).mp hc
    exact .refl _

omit [DecidableEq α] in
theorem createBroadcastComponents_txFrame {op : α} {conns : List (Targets α)} {p p' : Plan α}
    (h : createBroadcastComponents op conns p = .ok p') : TxFrame p p' := by
  refine txFrame_foldlM (fun b ⟨sp,ty,tgts⟩ b' _ hb => ?_) h
  dsimp only at hb
  split at hb
  · cases (pure_eq_ok _ _).mp hb
    exact .refl _
  · obtain ⟨_,-,hb⟩ := (bind_eq_ok _ _ _).mp hb
    cases (pure_eq_ok _ _).mp hb
    exact ⟨rfl,rfl⟩

variable {G : OperatorGraph α}

omit [DecidableEq α] in
theorem UcxTxJustified.of_txFrame {p p' : Plan α} (hj : UcxTxJustified G p) (h : TxFrame p p') :
    UcxTxJustified G p' := by
  unfold UcxTxJustified
  rw [h.1,h.2]
  exact hj

theorem UcxTxJustified.update {p : Plan α} {op : α} {o : Operator} (hj : UcxTxJustified G p)
    (h : outputShape o = outputShape (p.ops op)) : UcxTxJustified G { p with ops := Function.update p.ops op o } := by
  intro t ht
  obtain ⟨hs,htg,hk⟩ := hj t ht
  refine ⟨hs,htg,fun hu => ?_⟩
  dsimp only
  rw [isUcxOutput_of_outputShape (outputShape_update h t.source),
    operatorType_of_outputShape (outputShape_update h t.target)]
  exact hk hu

omit [DecidableEq α] in
theorem addBroadcastTx_justified {op prev : α} {port t : String} {p p' : Plan α} (hop : op ∈ G.nodes)
    (hprev : prev ∈ G.nodes) (hj : UcxTxJustified G p) (h : addBroadcastTx op prev port t p = .ok p') :
    UcxTxJustified G p' := by
  unfold addBroadcastTx at h
  obtain ⟨io,hio,h⟩ := (bind_eq_ok _ _ _).mp h
  dsimp only at h
  split at h
  · obtain ⟨_,-,h⟩ := (bind_eq_ok _ _ _).mp h
    cases (pure_eq_ok _ _).mp h
    intro x hx
    rcases List.mem_append.mp hx with hx | hx
    · exact hj x hx
    · obtain rfl := List.mem_singleton.mp hx
      exact ⟨hprev,hop,nofun⟩
  · rename_i hkind
    cases (pure_eq_ok _ _).mp h
    intro x hx
    rcases List.mem_append.mp hx with hx | hx
    · exact hj x hx
    · obtain rfl := List.mem_singleton.mp hx
      refine ⟨hprev,hop,fun _ => ?_⟩
      split_ifs at hkind with hd hv
      · exact .inr hv
      · exact .inl (isUcxOutput_of_outputSpec hio hkind)
  · cases (pure_eq_ok _ _).mp h
    exact hj

theorem connectBroadcastToPreviousOp_justified {op prev : α} {p p' : Plan α} (hop : op ∈ G.nodes)
    (hprev : prev ∈ G.nodes) (hj : UcxTxJustified G p) (h : connectBroadcastToPreviousOp op prev p = .ok p') :
    UcxTxJustified G p' := by
  refine foldlM_ok_induction (UcxTxJustified G) (fun b x b' _ hb hx => ?_) hj h
  dsimp only at hx
  split at hx
  · obtain ⟨b₁,h₁,hx⟩ := (bind_eq_ok _ _ _).mp hx
    cases (pure_eq_ok _ _).mp hx
    exact (foldlM_ok_induction (UcxTxJustified G)
      (fun _ _ _ _ hc ht => addBroadcastTx_justified hop hprev hc ht) hb h₁ : UcxTxJustified G b₁)
  · cases (pure_eq_ok _ _).mp hx
    exact hb

theorem connectPrevious_justified {op prev : α} {visited : List α} {p p' : Plan α} (hop : op ∈ G.nodes)
    (hprev : prev ∈ G.nodes) (hj : UcxTxJustified G p) (h : connectPrevious op visited p prev = .ok p') :
    UcxTxJustified G p' := by
  unfold connectPrevious at h
  split at h
  · cases (pure_eq_ok _ _).mp h
    exact hj
  split at h
  · cases h
  obtain ⟨p₁,h₁,h⟩ := (bind_eq_ok _ _ _).mp h
  have hj₁ : UcxTxJustified G p₁ := by
    split at h₁
    · exact connectBroadcastToPreviousOp_justified hop hprev hj h₁
    · cases (pure_eq_ok _ _).mp h₁
      exact hj
  dsimp only at h
  split at h
  · cases (pure_eq_ok _ _).mp h
    exact hj₁
  · exact hj₁.of_txFrame (connectDirect_txFrame h)

theorem connectInitializedNext_justified {op : α} {visited : List α} {p p' : Plan α} {nexts : List α}
    (hop : op ∈ G.nodes) (hnexts : ∀ n ∈ nexts, n ∈ G.nodes) (hj : UcxTxJustified G p)
    (h : connectInitializedNext op visited p nexts = .ok p') : UcxTxJustified G p' := by
  refine foldlM_ok_induction (UcxTxJustified G) (fun b n b' hn hb hs => ?_) hj h
  split at hs
  · split at hs
    · cases hs
    split at hs
    · exact connectBroadcastToPreviousOp_justified (hnexts n hn) hop hb hs
    · cases (pure_eq_ok _ _).mp hs
      exact hb
  · cases (pure_eq_ok _ _).mp hs
    exact hb

theorem visitOperator_justified {op : α} {visited : List α} {p p' : Plan α} (hop : op ∈ G.nodes)
    (hj : UcxTxJustified G p) (h : visitOperator G op visited p = .ok p') : UcxTxJustified G p' := by
  unfold visitOperator at h
  obtain ⟨o,ho,h⟩ := (bind_eq_ok _ _ _).mp h
  obtain ⟨p₁,h₁,h⟩ := (bind_eq_ok _ _ _).mp h
  obtain ⟨conns,-,h⟩ := (bind_eq_ok _ _ _).mp h
  obtain ⟨p₂,h₂,h⟩ := (bind_eq_ok _ _ _).mp h
  have hj₁ := foldlM_ok_induction (UcxTxJustified G)
    (fun _ _ _ hx hb hs => connectPrevious_justified hop (Digraph.prev_mem_nodes hx).1 hb hs)
    (hj.update (initialized_outputShape ho)) h₁
  have hj₂ := hj₁.of_txFrame (connectDeferred_txFrame h₂)
  split at h
  · obtain ⟨p₃,h₃,h⟩ := (bind_eq_ok _ _ _).mp h
    have hj₃ := hj₂.of_txFrame (createBroadcastComponents_txFrame h₃)
    split at h
    · cases (pure_eq_ok _ _).mp h
      exact hj₃
    · exact connectInitializedNext_justified hop (fun _ hn => (G.mem_nodes hn).2) hj₃ h
  · cases (pure_eq_ok _ _).mp h
    exact hj₂

theorem visitOperator_ucxShape {op : α} {visited : List α} {p p' : Plan α}
    (h : visitOperator G op visited p = .ok p') (x : α) : ucxShape (p'.ops x) = ucxShape (p.ops x) := by
  obtain ⟨o,ho,hk⟩ := visitOperator_ok h
  rw [hk.keepsOps.1]
  by_cases hx : x = op
  · subst hx
    simpa using initialized_ucxShape ho
  · simp [Function.update_noteq hx]

/-- After a finished `initialize_fragment`, the operators have the UCX shape they were given and
every broadcast transmitter is justified. -/
theorem initializeFragment_ucx {policy : MetadataPolicy} {s : Schedule α} {p : Plan α}
    (h : initializeFragment G policy = .finished s p) :
    (∀ x, ucxShape (p.ops x) = ucxShape (G.ops x)) ∧ UcxTxJustified G p :=
  runWith_invariant (fun _ p => (∀ x, ucxShape (p.ops x) = ucxShape (G.ops x)) ∧ UcxTxJustified G p)
    (fun _ _ _ _ hop _ hact hst => ⟨fun x => (visitOperator_ucxShape hact x).trans (hst.1 x),
      visitOperator_justified hop hst.2 hact⟩) h inv_initial ⟨fun _ => rfl,fun _ ht => nomatch ht⟩

/-- For a fragment without virtual operators, once `initialize_fragment` has finished, the
branch of `initialize_gxf_graph` without a network context throws exactly when one of the
fragment's operators declares an input or an output with a UCX connector: no broadcast entity
holds a UCX transmitter unless an operator port has a UCX connector. -/
theorem checkNoNetworkContext_eq {policy : MetadataPolicy} {s : Schedule α} {p : Plan α}
    (hlocal : ∀ v ∈ G.nodes, (G.ops v).operatorType ≠ .kVirtual) (h : initializeFragment G policy = .finished s p) :
    checkNoNetworkContext G p =
      if G.nodes.any fun v => hasUcxConnector (G.ops v) then .error ucxErrorMsg else .ok () := by
  obtain ⟨hshape,hj⟩ := initializeFragment_ucx h
  have hops : ∀ v, hasUcxConnector (p.ops v) = hasUcxConnector (G.ops v) := fun v =>
    hasUcxConnector_of_ucxShape (hshape v)
  unfold checkNoNetworkContext
  simp only [hops]
  split_ifs with hu hb
  · rfl
  · exfalso
    obtain ⟨b,-,hb⟩ := List.any_eq_true.mp hb
    obtain ⟨t,ht,htb⟩ := List.any_eq_true.mp hb
    simp only [Bool.and_eq_true,decide_eq_true_eq] at htb
    obtain ⟨hs,htg,hk⟩ := hj t ht
    rcases hk htb.2 with hx | hv
    · exact hu (List.any_eq_true.mpr ⟨t.source,hs,hops t.source ▸ hasUcxConnector_of_isUcxOutput hx⟩)
    · exact hlocal t.target htg ((operatorType_of_outputShape (congrArg Prod.fst (hshape t.target))).symm.trans hv)
  · rfl

def ucxPair : OperatorGraph Nat :=
  .ofEdges [0,1]
    (fun v => if v = 0 then ⟨"tx",.kNative,⟨[],[{ IOSpec.declare "out" IOSpec.kSizeOne with connectorType := .kUCX }],
        [],[]⟩,none,none,.kDefault,[],[]⟩ else dataOp "rx")
    [(0,1,[("out",["in"])])] (by decide) (by decide) (by decide)

theorem ucxPair_needs_network_context : ∃ s p, initializeFragment ucxPair .kDefault = .finished s p ∧
    checkNoNetworkContext ucxPair p = .error ucxErrorMsg := by
  obtain ⟨s,p,hrun⟩ : ∃ s p, initializeFragment ucxPair .kDefault = .finished s p := ⟨_,_,rfl⟩
  exact ⟨s,p,hrun,(checkNoNetworkContext_eq (by decide) hrun).trans rfl⟩

/-! ### A GPU device for every entity group of an operator with a UCX port -/

/-- What the device loop asks GXF of an operator's graph entity: `gxf_device_id` and
`gxf_entity_group_name`. The answers are the context's before the loop: a device the loop adds
changes them only inside the entity group it then records. -/
structure EntityGroups (ε : Type) where
  deviceId : ε → Option Int
  groupName : ε → String

structure GeneratedDevice (ε : Type) where
  deviceName : String
  graphEntity : ε

/-- The loop's locals: the devices generated, `generated_device_entity_count` and
`groups_with_device` (an unordered set, of which only membership is read). -/
structure DeviceLoop (ε : Type) where
  generated : List (GeneratedDevice ε)
  generatedDeviceEntityCount : Nat
  groupsWithDevice : List String

variable {ε : Type} (E : EntityGroups ε) (entityPrefix : String) (graphEntity : α → Option ε)

/-- One pass of the loop over `operator_graph.get_nodes()`; `add_gpu_device_to_graph_entity`
returns the device it made, never null. -/
def addDeviceFor (ops : α → Operator) (s : DeviceLoop ε) (node : α) : DeviceLoop ε :=
  if (ops node).operatorType = .kVirtual then s
  else if !hasUcxConnector (ops node) then s
  else match graphEntity node with
    | none => s
    | some e =>
      if E.groupName e ∈ s.groupsWithDevice then s
      else match E.deviceId e with
        | some _ => { s with groupsWithDevice := s.groupsWithDevice.insert (E.groupName e) }
        | none =>
          let deviceName := entityPrefix ++ "gpu_device_entity" ++ toString s.generatedDeviceEntityCount
          ⟨s.generated ++ [⟨deviceName,e⟩],s.generatedDeviceEntityCount + 1,
            s.groupsWithDevice.insert (E.groupName e)⟩

/-- The device loop of the branch of `initialize_gxf_graph` with a network context, over the
operators as `initialize_fragment` left them. -/
def addGpuDevices (nodes : List α) (ops : α → Operator) : DeviceLoop ε :=
  nodes.foldl (addDeviceFor E entityPrefix graphEntity ops) ⟨[],0,[]⟩

/-- A group holds a GPU device: one that GXF reports for the entity of an operator in `nodes`,
or one the loop generated. -/
def HoldsDevice (nodes : List α) (s : DeviceLoop ε) (group : String) : Prop :=
  (∃ w ∈ nodes, ∃ e, graphEntity w = some e ∧ E.groupName e = group ∧ (E.deviceId e).isSome) ∨
    ∃ d ∈ s.generated, E.groupName d.graphEntity = group

/-- The loop's invariant: the count is the number of generated devices, which are named by
their index, lie in distinct recorded groups and are added only where GXF reported none; every
recorded group holds a device. -/
structure DeviceInv (nodes : List α) (s : DeviceLoop ε) : Prop where
  count : s.generatedDeviceEntityCount = s.generated.length
  names : s.generated.map (·.deviceName) =
    (List.range s.generated.length).map fun k => entityPrefix ++ "gpu_device_entity" ++ toString k
  groups_nodup : (s.generated.map fun d => E.groupName d.graphEntity).Nodup
  recorded : ∀ d ∈ s.generated, E.groupName d.graphEntity ∈ s.groupsWithDevice
  fresh : ∀ d ∈ s.generated, E.deviceId d.graphEntity = none
  holds : ∀ g ∈ s.groupsWithDevice, HoldsDevice E graphEntity nodes s g

def Served (ops : α → Operator) (s : DeviceLoop ε) (v : α) : Prop :=
  ∀ e, (ops v).operatorType ≠ .kVirtual → hasUcxConnector (ops v) → graphEntity v = some e →
    E.groupName e ∈ s.groupsWithDevice

variable {E entityPrefix graphEntity}

omit [DecidableEq α] in
theorem HoldsDevice.mono {nodes : List α} {s s' : DeviceLoop ε} {g : String} (h : HoldsDevice E graphEntity nodes s g)
    (hs : ∀ d ∈ s.generated, d ∈ s'.generated) : HoldsDevice E graphEntity nodes s' g :=
  h.imp id fun ⟨d,hd,hg⟩ => ⟨d,hs d hd,hg⟩

omit [DecidableEq α] in
theorem DeviceInv.record {nodes : List α} {s : DeviceLoop ε} {v : α} {e : ε}
    (hs : DeviceInv E entityPrefix graphEntity nodes s) (hv : v ∈ nodes) (he : graphEntity v = some e)
    (hd : (E.deviceId e).isSome) :
    DeviceInv E entityPrefix graphEntity nodes { s with groupsWithDevice := s.groupsWithDevice.insert (E.groupName e) } := by
  refine ⟨hs.count,hs.names,hs.groups_nodup,fun d hd => List.mem_insert_of_mem (hs.recorded d hd),hs.fresh,
    fun g hg => ?_⟩
  rcases List.mem_insert_iff.mp hg with rfl | hg
  · exact .inl ⟨v,hv,e,he,rfl,hd⟩
  · exact hs.holds g hg

omit [DecidableEq α] in
theorem DeviceInv.generate {nodes : List α} {s : DeviceLoop ε} {e : ε}
    (hs : DeviceInv E entityPrefix graphEntity nodes s) (hg : E.groupName e ∉ s.groupsWithDevice)
    (hd : E.deviceId e = none) :
    DeviceInv E entityPrefix graphEntity nodes
      ⟨s.generated ++ [⟨entityPrefix ++ "gpu_device_entity" ++ toString s.generatedDeviceEntityCount,e⟩],
        s.generatedDeviceEntityCount + 1,s.groupsWithDevice.insert (E.groupName e)⟩ := by
  have hnew : ∀ d ∈ s.generated, E.groupName d.graphEntity ≠ E.groupName e := fun d hd' h =>
    hg (h ▸ hs.recorded d hd')
  refine ⟨by simp [hs.count],by simp [List.range_succ,hs.names,hs.count],
    by simpa [List.nodup_append] using ⟨hs.groups_nodup,hnew⟩,fun d hd' => ?_,fun d hd' => ?_,fun g hg' => ?_⟩
  · rcases List.mem_append.mp hd' with hd' | hd'
    · exact List.mem_insert_of_mem (hs.recorded d hd')
    · obtain rfl := List.mem_singleton.mp hd'
      exact List.mem_insert_self _ _
  · rcases List.mem_append.mp hd' with hd' | hd'
    · exact hs.fresh d hd'
    · obtain rfl := List.mem_singleton.mp hd'
      exact hd
  · rcases List.mem_insert_iff.mp hg' with rfl | hg'
    · exact .inr ⟨⟨_,e⟩,List.mem_append_right _ (List.mem_singleton_self _),rfl⟩
    · exact (hs.holds g hg').mono fun d hd' => List.mem_append_left _ hd'

omit [DecidableEq α] in
/-- One pass keeps the invariant, only adds to the recorded groups, and serves the operator it
looks at. -/
theorem addDeviceFor_inv {nodes : List α} (ops : α → Operator) {s : DeviceLoop ε} {v : α} (hv : v ∈ nodes)
    (hs : DeviceInv E entityPrefix graphEntity nodes s) :
    let s' := addDeviceFor E entityPrefix graphEntity ops s v
    DeviceInv E entityPrefix graphEntity nodes s' ∧ (∀ g ∈ s.groupsWithDevice, g ∈ s'.groupsWithDevice) ∧
      Served E graphEntity ops s' v := by
  intro s'
  unfold s' addDeviceFor
  by_cases hvirt : (ops v).operatorType = .kVirtual
  · simp only [hvirt,if_true]
    exact ⟨hs,fun _ => id,fun _ h => absurd hvirt h⟩
  by_cases hucx : hasUcxConnector (ops v)
  swap
  · simp only [hvirt,hucx,if_false,Bool.not_false,if_true]
    exact ⟨hs,fun _ => id,fun _ _ h => absurd h hucx⟩
  simp only [hvirt,hucx,if_false,Bool.not_true]
  cases he : graphEntity v with
  | none => exact ⟨hs,fun _ => id,fun _ _ _ h => nomatch h.symm.trans he⟩
  | some e =>
    have hserved : ∀ s' : DeviceLoop ε, E.groupName e ∈ s'.groupsWithDevice → Served E graphEntity ops s' v :=
      fun _ hg e' _ _ h => by cases h.symm.trans he; exact hg
    dsimp only
    by_cases hg : E.groupName e ∈ s.groupsWithDevice
    · simp only [hg,if_true]
      exact ⟨hs,fun _ => id,hserved s hg⟩
    simp only [hg,if_false]
    cases hd : E.deviceId e with
    | some dev =>
      exact ⟨hs.record hv he (by simp [hd]),fun _ => List.mem_insert_of_mem,hserved _ (List.mem_insert_self _ _)⟩
    | none => exact ⟨hs.generate hg hd,fun _ => List.mem_insert_of_mem,hserved _ (List.mem_insert_self _ _)⟩

omit [DecidableEq α] in
theorem foldl_addDeviceFor {nodes l : List α} (ops : α → Operator) (hl : ∀ v ∈ l, v ∈ nodes) {s : DeviceLoop ε}
    (hs : DeviceInv E entityPrefix graphEntity nodes s) :
    let s' := l.foldl (addDeviceFor E entityPrefix graphEntity ops) s
    DeviceInv E entityPrefix graphEntity nodes s' ∧ (∀ g ∈ s.groupsWithDevice, g ∈ s'.groupsWithDevice) ∧
      ∀ v ∈ l, Served E graphEntity ops s' v := by
  induction l generalizing s with
  | nil => exact ⟨hs,fun _ => id,nofun⟩
  | cons v vs ih =>
    obtain ⟨h₁,h₂,h₄⟩ := addDeviceFor_inv ops (hl v (List.mem_cons_self _ _)) hs
    obtain ⟨h₅,h₆,h₇⟩ := ih (fun w hw => hl w (List.mem_cons_of_mem _ hw)) h₁
    exact ⟨h₅,fun g hg => h₆ g (h₂ g hg),
      List.forall_mem_cons.mpr ⟨fun e h₈ h₉ h₁₀ => h₆ _ (h₄ e h₈ h₉ h₁₀),h₇⟩⟩

/-- The device loop over the operators as a finished `initialize_fragment` left them: the
entity group of every operator that is not virtual, has a port with a UCX connector and a graph
entity holds a GPU device afterwards, reported by GXF or generated; the loop generates at most
one device per group, only where GXF reported none, and names them
`{entity_prefix}gpu_device_entity0`, `...1`, ... in order. -/
theorem addGpuDevices_spec {G : OperatorGraph α} {policy : MetadataPolicy} {s : Schedule α} {p : Plan α}
    (h : initializeFragment G policy = .finished s p) :
    let r := addGpuDevices E entityPrefix graphEntity G.nodes p.ops
    (∀ v ∈ G.nodes, ∀ e, (G.ops v).operatorType ≠ .kVirtual → hasUcxConnector (G.ops v) →
      graphEntity v = some e → HoldsDevice E graphEntity G.nodes r (E.groupName e)) ∧
    (r.generated.map fun d => E.groupName d.graphEntity).Nodup ∧ (∀ d ∈ r.generated, E.deviceId d.graphEntity = none) ∧
    r.generated.map (·.deviceName) =
      (List.range r.generated.length).map fun k => entityPrefix ++ "gpu_device_entity" ++ toString k := by
  intro r
  have hshape := (initializeFragment_ucx h).1
  have h₀ : DeviceInv E entityPrefix graphEntity G.nodes ⟨[],0,[]⟩ := ⟨rfl,rfl,List.nodup_nil,nofun,nofun,nofun⟩
  obtain ⟨hinv,-,hserved⟩ := foldl_addDeviceFor p.ops (fun _ => id) h₀
  refine ⟨fun v hv e hvirt hucx he => hinv.holds _ (hserved v hv e ?_ ?_ he),hinv.groups_nodup,hinv.fresh,hinv.names⟩
  · rwa [operatorType_of_outputShape (congrArg Prod.fst (hshape v))]
  · rwa [hasUcxConnector_of_ucxShape (hshape v)]

def ownGroups : EntityGroups Nat := ⟨fun _ => none,toString⟩

theorem ucxPair_device_generated : ∃ s p, initializeFragment ucxPair .kDefault = .finished s p ∧
    HoldsDevice ownGroups some ucxPair.nodes (addGpuDevices ownGroups "" some ucxPair.nodes p.ops) "0" ∧
      (addGpuDevices ownGroups "" some ucxPair.nodes p.ops).generated.map (·.deviceName) = ["gpu_device_entity0"] :=
  ⟨_,_,rfl,(@addGpuDevices_spec Nat _ Nat ownGroups "" some ucxPair .kDefault _ _ rfl).1 0 (by decide) 0
    (by decide) (by decide) rfl,by decide⟩

end NetworkContext
end HoloscanLowering
