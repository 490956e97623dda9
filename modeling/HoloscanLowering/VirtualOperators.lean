import HoloscanLowering.AddFlow
import HoloscanLowering.Distributed

/-! `create_virtual_operators_and_connections` as a pass over the fragment: for each
inter-fragment connection of a port, a virtual operator, joined by `add_flow` to the port's
operator, through a forward operator for an input. Nodes are numbers, the pass taking the next
free one for each operator it makes. The fragment it leaves is the operator graph that
`connect_ucx_transmitters_to_virtual_ops` and `initialize_fragment` walk. -/
namespace HoloscanLowering
namespace VirtualOperators

open AddFlow InitializeFragment Distributed

/-! ### What an `add_flow` with port pairs changes -/

section Flow
variable {α : Type} [DecidableEq α]

/-- `o'` is `o` with inputs added: the same name, type, outputs and input execution spec, and
every input name of `o`. -/
structure AddsInputs (o o' : Operator) : Prop where
  name : o'.name = o.name
  operatorType : o'.operatorType = o.operatorType
  outputs : o'.spec.outputs = o.spec.outputs
  inputExecSpec : o'.inputExecSpec = o.inputExecSpec
  inputs : ∀ n ∈ o.spec.inputs.map (·.name), n ∈ o'.spec.inputs.map (·.name)

theorem AddsInputs.refl (o : Operator) : AddsInputs o o := ⟨rfl,rfl,rfl,rfl,fun _ => id⟩

theorem AddsInputs.trans {a b c : Operator} (h₁ : AddsInputs a b) (h₂ : AddsInputs b c) :
    AddsInputs a c :=
  ⟨h₂.name.trans h₁.name,h₂.operatorType.trans h₁.operatorType,h₂.outputs.trans h₁.outputs,
    h₂.inputExecSpec.trans h₁.inputExecSpec,fun n hn => h₂.inputs n (h₁.inputs n hn)⟩

theorem addReceivers_addsInputs (o : Operator) (name : String) : AddsInputs o (addReceivers o name).1 := by
  refine ⟨rfl,rfl,rfl,rfl,fun n hn => ?_⟩
  simp only [addReceivers,addPort]
  split_ifs <;> simp_all

theorem resolveInputLabels_addsInputs (single : Bool) (o : Operator) (ls acc : List String) :
    AddsInputs o (resolveInputLabels single o ls acc).1 := by
  induction ls generalizing o acc with
  | nil => exact .refl o
  | cons l ls ih =>
    have recv : ∀ name, AddsInputs o
        (resolveInputLabels single (addReceivers o name).1 ls (acc++[(addReceivers o name).2])).1 :=
      fun name => (addReceivers_addsInputs o name).trans (ih _ _)
    simp only [resolveInputLabels]
    split
    · exact ih o _
    split
    · split
      · exact .refl o
      split
      · exact recv _
      · exact .refl o
    split
    · exact recv _
    split <;> exact .refl o

theorem resolveTargets_addsInputs (o : Operator) (pm : PortMap) :
    AddsInputs o (resolveTargets o pm).1 := by
  induction pm generalizing o with
  | nil => exact .refl o
  | cons e rest ih =>
    obtain ⟨k,ts⟩ := e
    simp only [resolveTargets]
    split
    · exact .refl o
    have h₁ := resolveInputLabels_addsInputs (ts.length == 1) o ts []
    split
    · rename_i h
      simpa [h] using h₁
    rename_i o₁ _ h
    rw [h] at h₁
    split <;> rename_i h' <;> simpa [h'] using h₁.trans (ih o₁)

theorem resolveTargets_keys {o : Operator} {pm pm' : PortMap} (h : (resolveTargets o pm).2 = .ok pm') :
    pm'.map (·.1) = pm.map (·.1) := by
  induction pm generalizing o pm' with
  | nil => cases h; rfl
  | cons e rest ih =>
    obtain ⟨k,ts⟩ := e
    simp only [resolveTargets] at h
    split at h
    · cases h
    split at h
    · cases h
    split at h
    · cases h
    rename_i h'
    cases h
    simp [ih (congrArg Prod.snd h')]

/-- An `add_flow` with port pairs changes the downstream operator by adding inputs, and adds
or merges the edge `u → v` with a port map whose keys are those the output labels resolve to. -/
theorem dataFlow_eq (F : Fragment α) (u v : α) (pairs : List (String × String)) :
    ∃ o, ∃ pm : Option PortMap, AddsInputs (F.ops v) o ∧
      (dataFlow F u v pairs).1 = ⟨Function.update F.ops v o,pm.elim F.graph (F.graph.addFlow u v)⟩ ∧
      ∀ p ∈ pm, ∃ pm₀, resolveOutputLabels (F.ops u) (portMapOfPairs pairs) = .ok pm₀ ∧
        p.map (·.1) = pm₀.map (·.1) := by
  unfold dataFlow
  split
  · exact ⟨F.ops v,none,.refl _,by simp only [Function.update_eq_self]; rfl,nofun⟩
  rename_i pm₀ h₀
  have ho := resolveTargets_addsInputs (F.ops v) pm₀
  rcases h : resolveTargets (F.ops v) pm₀ with ⟨o,e | pm'⟩
  · rw [h] at ho
    exact ⟨o,none,ho,rfl,nofun⟩
  · rw [h] at ho
    refine ⟨o,some pm',ho,rfl,fun p hp => ⟨pm₀,h₀,?_⟩⟩
    cases hp
    exact resolveTargets_keys (congrArg Prod.snd h)

theorem addFlow_of_ne_nil {F : Fragment α} {u v : α} {pairs : List (String × String)} (h : pairs ≠ []) :
    addFlow F u v pairs = dataFlow F u v pairs := by
  simp [addFlow,List.isEmpty_iff,h]

/-- A flow graph's nodes are listed once each, and its edges join listed nodes. -/
structure GraphWf (g : FlowGraph α) : Prop where
  nodup : g.nodes.Nodup
  edges : ∀ e ∈ g.edges, e.1 ∈ g.nodes ∧ e.2.1 ∈ g.nodes

theorem nodes_addNode {l : List α} {x : α} (hl : l.Nodup) :
    (if x ∈ l then l else l++[x]).Nodup ∧ ∀ y, y ∈ (if x ∈ l then l else l++[x]) ↔ y ∈ l ∨ y = x := by
  split_ifs with hx
  · exact ⟨hl,fun y => ⟨.inl,fun h => h.elim id (· ▸ hx)⟩⟩
  · exact ⟨List.nodup_append.mpr ⟨hl,List.nodup_singleton x,by simpa using hx⟩,by simp⟩

theorem nodes_addFlow {g : FlowGraph α} (u v : α) (pm : PortMap) (h : g.nodes.Nodup) :
    (g.addFlow u v pm).nodes.Nodup ∧ ∀ x, x ∈ (g.addFlow u v pm).nodes ↔ x ∈ g.nodes ∨ x = u ∨ x = v := by
  obtain ⟨h₁,m₁⟩ := nodes_addNode (x := u) h
  obtain ⟨h₂,m₂⟩ := nodes_addNode (x := v) h₁
  have hn : (g.addFlow u v pm).nodes = if v ∈ (if u ∈ g.nodes then g.nodes else g.nodes++[u])
      then (if u ∈ g.nodes then g.nodes else g.nodes++[u])
      else (if u ∈ g.nodes then g.nodes else g.nodes++[u])++[v] := by
    simp only [FlowGraph.addFlow,apply_ite FlowGraph.nodes,ite_self]
  rw [hn]
  exact ⟨h₂,fun x => by rw [m₂,m₁,or_assoc]⟩

theorem GraphWf.addFlow {g : FlowGraph α} (h : GraphWf g) (u v : α) (pm : PortMap) :
    GraphWf (g.addFlow u v pm) := by
  obtain ⟨hn,hm⟩ := nodes_addFlow u v pm h.nodup
  refine ⟨hn,fun e he => ?_⟩
  rcases FlowGraph.mem_addFlow he with he | rfl | ⟨_,_,rfl⟩
  · exact ⟨(hm _).mpr (.inl (h.edges e he).1),(hm _).mpr (.inl (h.edges e he).2)⟩
  all_goals exact ⟨(hm _).mpr (.inr (.inl rfl)),(hm _).mpr (.inr (.inr rfl))⟩

def ExecWf (ops : α → Operator) : Prop :=
  ∀ v, ∀ q ∈ (ops v).inputExecSpec, q ∈ (ops v).spec.inputs.map (·.name)

theorem ExecWf.update {ops : α → Operator} (h : ExecWf ops) {v : α} {o : Operator}
    (ho : ∀ q ∈ o.inputExecSpec, q ∈ o.spec.inputs.map (·.name)) : ExecWf (Function.update ops v o) := by
  intro x
  by_cases hx : x = v
  · subst hx
    simpa using ho
  · simpa [Function.update_noteq hx] using h x

theorem ExecWf.addsInputs {ops : α → Operator} (h : ExecWf ops) {v : α} {o : Operator}
    (ho : AddsInputs (ops v) o) : ExecWf (Function.update ops v o) :=
  h.update fun q hq => ho.inputs q (h v q (ho.inputExecSpec ▸ hq))

def toOperatorGraph (F : Fragment α) (hg : GraphWf F.graph) (hx : ExecWf F.ops) : OperatorGraph α :=
  .ofEdges F.graph.nodes F.ops F.graph.edges hg.nodup hg.edges fun v _ => hx v

/-- `F'` is `F` after an `add_flow` from `u` to `w` with port pairs `pairs`: `w` given inputs,
`u` and `w` added to the nodes, and every edge other than `u → w` kept; an edge `u → w` that is
not merged into one already there has the keys the output labels resolve to. -/
structure Flowed (F F' : Fragment α) (u w : α) (pairs : List (String × String)) : Prop where
  ops : ∃ o, AddsInputs (F.ops w) o ∧ F'.ops = Function.update F.ops w o
  nodes_sub : ∀ x ∈ F.graph.nodes, x ∈ F'.graph.nodes
  nodes : ∀ x ∈ F'.graph.nodes, x ∈ F.graph.nodes ∨ x = u ∨ x = w
  edges : ∀ e ∈ F'.graph.edges, e ∈ F.graph.edges ∨ e.1 = u ∧ e.2.1 = w ∧
    ((∃ old, (u,w,old) ∈ F.graph.edges) ∨ ∃ pm₀, resolveOutputLabels (F.ops u) (portMapOfPairs pairs) = .ok pm₀ ∧
      e.2.2.map (·.1) = pm₀.map (·.1))

theorem dataFlow_flowed {F : Fragment α} (hg : GraphWf F.graph) (u w : α) (pairs : List (String × String)) :
    GraphWf (dataFlow F u w pairs).1.graph ∧ Flowed F (dataFlow F u w pairs).1 u w pairs := by
  obtain ⟨o,pm,ho,heq,hk⟩ := dataFlow_eq F u w pairs
  rw [heq]
  cases pm with
  | none => exact ⟨hg,⟨o,ho,rfl⟩,fun _ => id,fun x hx => .inl hx,fun e he => .inl he⟩
  | some p =>
    obtain ⟨_,hm⟩ := nodes_addFlow u w p hg.nodup
    refine ⟨hg.addFlow u w p,⟨o,ho,rfl⟩,fun x hx => (hm x).mpr (.inl hx),fun x hx => (hm x).mp hx,
      fun e he => ?_⟩
    rcases FlowGraph.mem_addFlow he with he | rfl | ⟨old,hold,rfl⟩
    · exact .inl he
    · exact .inr ⟨rfl,rfl,.inr (hk p rfl)⟩
    · exact .inr ⟨rfl,rfl,.inl ⟨old,hold⟩⟩

theorem Flowed.ops_of_ne {F F' : Fragment α} {u w : α} {pairs : List (String × String)}
    (h : Flowed F F' u w pairs) {x : α} (hx : x ≠ w) : F'.ops x = F.ops x := by
  obtain ⟨o,-,ho⟩ := h.ops
  rw [ho,Function.update_noteq hx]

theorem Flowed.shape {F F' : Fragment α} {u w : α} {pairs : List (String × String)}
    (h : Flowed F F' u w pairs) (x : α) :
    (F'.ops x).operatorType = (F.ops x).operatorType ∧ (F'.ops x).spec.outputs = (F.ops x).spec.outputs := by
  by_cases hx : x = w
  · obtain ⟨o,ho,hF⟩ := h.ops
    subst hx
    rw [hF,Function.update_same]
    exact ⟨ho.operatorType,ho.outputs⟩
  · rw [h.ops_of_ne hx]
    exact ⟨rfl,rfl⟩

theorem Flowed.exec {F F' : Fragment α} {u w : α} {pairs : List (String × String)}
    (h : Flowed F F' u w pairs) (hx : ExecWf F.ops) : ExecWf F'.ops := by
  obtain ⟨o,ho,hF⟩ := h.ops
  rw [hF]
  exact hx.addsInputs ho

theorem Flowed.edges_into {F F' : Fragment α} {u w : α} {pairs : List (String × String)}
    (h : Flowed F F' u w pairs) {x : α} (hx : x ≠ w) {e : α × α × PortMap} (he : e ∈ F'.graph.edges)
    (hex : e.2.1 = x) : e ∈ F.graph.edges :=
  (h.edges e he).resolve_right fun ⟨_,hw,_⟩ => hx (hex ▸ hw)

theorem resolveOutputLabels_single {up : Operator} {p : String} {ts : List String} {pm : PortMap}
    (hp : p ≠ "") (h : resolveOutputLabels up [(p,ts)] = .ok pm) : pm = [(p,ts)] := by
  unfold resolveOutputLabels at h
  dsimp only at h
  split_ifs at h
  split at h
  · cases h
    rfl
  rename_i l _ hl
  obtain ⟨rfl,-⟩ : l = p ∧ _ := by simpa using List.mem_of_find?_eq_some hl
  split at h
  · split_ifs at h
    exact absurd ‹_› hp
  all_goals cases h

end Flow

/-! ### The operators the pass makes -/

/-- Modelled from how the pass connects them, their classes being absent from the sources:
`VirtualTransmitterOp(port_name, ...)` after `setup`, a virtual operator with the input
`port_name`. -/
def virtualTransmitterOp (name port : String) : Operator :=
  ⟨name,.kVirtual,⟨[IOSpec.declare port IOSpec.kSizeOne],[],[],[]⟩,none,none,.kDefault,[],[]⟩

/-- `VirtualReceiverOp(port_name, ...)`, a virtual operator with the output `port_name`. -/
def virtualReceiverOp (name port : String) : Operator :=
  ⟨name,.kVirtual,⟨[],[IOSpec.declare port IOSpec.kSizeOne],[],[]⟩,none,none,.kDefault,[],[]⟩

/-- `make_operator<ForwardOp>(name)`, with the input `in` and the output `out`, after
`in_spec->connector(type, ...)` on `in`. -/
def forwardOp (name : String) (connector : ConnectorType) : Operator :=
  ⟨name,.kNative,⟨[{ IOSpec.declare "in" IOSpec.kSizeOne with connectorType := connector }],
    [IOSpec.declare "out" IOSpec.kSizeOne],[],[]⟩,none,none,.kDefault,[],[]⟩

/-! ### The pass -/

/-- What the pass carries: the fragment, the next free node, and `virtual_ops`. -/
structure Lowering where
  fragment : Fragment Nat
  next : Nat
  virtualOps : List (VirtualOp Nat)

/-- `param_index` of an input connection: none for an input port of `o` that is not
`kAnySize`; otherwise the length of the `std::vector<IOSpec*>` parameter `port`, whose
`std::any_cast` fails when `o` has no such parameter. -/
def paramIndex (o : Operator) (port : String) : Except Abort (Option Nat) :=
  if (findPort o.spec.inputs port).all (·.queueSize = IOSpec.kAnySize) then
    if o.spec.receivers.any (·.1 = port) then
      .ok (some (((o.spec.receivers.find? (·.1 = port)).map (·.2.length)).getD 0))
    else .error (.exception "bad any_cast")
  else .ok none

/-- The connection of index `index` of port `port` of `op`: a virtual transmitter fed by
`op.port`, or a virtual receiver feeding `op.port` through a forward operator. -/
def addVirtualOp (op : Nat) (port : String) (index : Nat) (s : Lowering) (ioType : IOType) :
    Except Abort Lowering :=
  let F := s.fragment
  let v := s.next
  let name := virtualOpName (F.ops op).name port index
  match ioType with
  | .kOutput =>
    let F := { F with ops := Function.update F.ops v (virtualTransmitterOp name port) }
    .ok ⟨(addFlow F op v [(port,port)]).1,v+1,s.virtualOps++[⟨v,port,.kOutput,.kUCX⟩]⟩
  | .kInput => do
    let k ← paramIndex (F.ops op) port
    let fwd := v+1
    let ops := Function.update F.ops v (virtualReceiverOp name port)
    let F := { F with ops := Function.update ops fwd (forwardOp (forwardOpName (F.ops op).name port k) .kUCX) }
    let F := (addFlow F v fwd [(port,"in")]).1
    .ok ⟨(addFlow F fwd op [("out",port)]).1,v+2,s.virtualOps++[⟨v,port,.kInput,.kUCX⟩]⟩

def addPortConnections (op : Nat) (port : String) :
    Nat → Lowering → List IOType → Except Abort Lowering
  | _, s, [] => .ok s
  | index, s, t :: ts => do
    let s ← addVirtualOp op port index s t
    addPortConnections op port (index+1) s ts

/-- `create_virtual_operators_and_connections(fragment, connection_map, virtual_ops)`, the
connection map listing each operator with its ports and each port's connections in order. -/
def createVirtualOperatorsAndConnections (connectionMap : List (Nat × List (String × List IOType)))
    (s : Lowering) : Except Abort Lowering :=
  connectionMap.foldlM (fun s e => e.2.foldlM (fun s pc => addPortConnections e.1 pc.1 0 s pc.2) s) s

/-! ### What the pass keeps -/

def NoUcxOutput (o : Operator) : Prop := ∀ io ∈ o.spec.outputs, io.connectorType ≠ .kUCX

/-- What the pass keeps, from a fragment whose nodes `nodes₀` are below `next₀`: a well formed
flow graph holding `nodes₀`, its nodes below the next free one and without a UCX output, and
each virtual operator one the pass made, a transmitter being a virtual operator whose every
incoming edge has its port as key. -/
structure PassInv (nodes₀ : List Nat) (next₀ : Nat) (s : Lowering) : Prop where
  graph : GraphWf s.fragment.graph
  exec : ExecWf s.fragment.ops
  base : ∀ x ∈ nodes₀, x ∈ s.fragment.graph.nodes
  fresh : ∀ x ∈ s.fragment.graph.nodes, x < s.next
  next : next₀ ≤ s.next
  noUcx : ∀ x ∈ s.fragment.graph.nodes, NoUcxOutput (s.fragment.ops x)
  virtual : ∀ vop ∈ s.virtualOps, next₀ ≤ vop.node ∧ vop.node < s.next ∧ (vop.ioType = .kOutput →
    (s.fragment.ops vop.node).operatorType = .kVirtual ∧
      ∀ e ∈ s.fragment.graph.edges, e.2.1 = vop.node → e.2.2.any (·.1 = vop.portName))

section Pass
variable {nodes₀ : List Nat} {next₀ : Nat}

theorem PassInv.transmitter {s : Lowering} (hI : PassInv nodes₀ next₀ s) {op : Nat} (hop : op ∈ nodes₀)
    (hlt : op < next₀) {port : String} (hport : port ≠ "") (name : String) :
    PassInv nodes₀ next₀ ⟨(addFlow ⟨Function.update s.fragment.ops s.next (virtualTransmitterOp name port),
        s.fragment.graph⟩
      op s.next [(port,port)]).1,s.next+1,s.virtualOps++[⟨s.next,port,.kOutput,.kUCX⟩]⟩ := by
  rw [addFlow_of_ne_nil (List.cons_ne_nil _ _)]
  obtain ⟨hg,fl⟩ := dataFlow_flowed (F := ⟨Function.update s.fragment.ops s.next
    (virtualTransmitterOp name port),s.fragment.graph⟩) hI.graph op s.next [(port,port)]
  generalize (dataFlow _ op s.next [(port,port)]).1 = F₂ at hg fl
  have hv : ∀ x ∈ s.fragment.graph.nodes, x ≠ s.next := fun x hx => (hI.fresh x hx).ne
  have hops : ∀ x ≠ s.next, F₂.ops x = s.fragment.ops x := fun x hx =>
    (fl.ops_of_ne hx).trans (Function.update_noteq hx _ _)
  have hshape := fl.shape s.next
  simp only [Function.update_same] at hshape
  refine ⟨hg,fl.exec (hI.exec.update (by simp [virtualTransmitterOp])),
    fun x hx => fl.nodes_sub x (hI.base x hx),fun x hx => ?_,Nat.le_succ_of_le hI.next,fun x hx => ?_,
    fun vop hvop => ?_⟩
  · rcases fl.nodes x hx with hx | rfl | rfl
    · exact Nat.lt_succ_of_lt (hI.fresh x hx)
    · exact Nat.lt_succ_of_lt (Nat.lt_of_lt_of_le hlt hI.next)
    · exact Nat.lt_succ_self _
  · by_cases hxv : x = s.next
    · subst hxv
      intro io hio
      simp [hshape.2,virtualTransmitterOp] at hio
    rw [hops x hxv]
    rcases fl.nodes x hx with hx | rfl | rfl
    · exact hI.noUcx x hx
    · exact hI.noUcx x (hI.base x hop)
    · exact absurd rfl hxv
  rcases List.mem_append.mp hvop with hvop | hvop
  · obtain ⟨h₁,h₂,h₃⟩ := hI.virtual vop hvop
    refine ⟨h₁,Nat.lt_succ_of_lt h₂,fun hk => ⟨?_,fun e he hex => (h₃ hk).2 e ?_ hex⟩⟩
    · rw [hops _ h₂.ne]
      exact (h₃ hk).1
    · exact fl.edges_into h₂.ne he hex
  obtain rfl := List.mem_singleton.mp hvop
  refine ⟨hI.next,Nat.lt_succ_self _,fun _ => ⟨by simpa [virtualTransmitterOp] using hshape.1,
    fun e he hex => ?_⟩⟩
  rcases fl.edges e he with he | ⟨-,-,⟨old,hold⟩ | ⟨pm₀,hpm₀,hk⟩⟩
  · exact absurd hex (hv _ (hI.graph.edges e he).2)
  · exact absurd rfl (hv _ (hI.graph.edges _ hold).2)
  · rw [resolveOutputLabels_single hport hpm₀] at hk
    obtain ⟨x,hx,hx₁⟩ := List.mem_map.mp (show port ∈ e.2.2.map (·.1) by rw [hk]; simp)
    exact List.any_eq_true.mpr ⟨x,hx,by simpa using hx₁⟩

theorem PassInv.receiver {s : Lowering} (hI : PassInv nodes₀ next₀ s) {op : Nat} (hop : op ∈ nodes₀)
    (hlt : op < next₀) (port name fwdName : String) :
    PassInv nodes₀ next₀ ⟨(addFlow (addFlow ⟨Function.update (Function.update s.fragment.ops s.next
        (virtualReceiverOp name port)) (s.next+1) (forwardOp fwdName .kUCX),s.fragment.graph⟩
        s.next (s.next+1) [(port,"in")]).1 (s.next+1) op [("out",port)]).1,
      s.next+2,s.virtualOps++[⟨s.next,port,.kInput,.kUCX⟩]⟩ := by
  rw [addFlow_of_ne_nil (List.cons_ne_nil _ _),addFlow_of_ne_nil (List.cons_ne_nil _ _)]
  obtain ⟨hg₂,fl₂⟩ := dataFlow_flowed (F := ⟨Function.update (Function.update s.fragment.ops s.next
    (virtualReceiverOp name port)) (s.next+1) (forwardOp fwdName .kUCX),s.fragment.graph⟩) hI.graph
    s.next (s.next+1) [(port,"in")]
  generalize (dataFlow _ s.next (s.next+1) [(port,"in")]).1 = F₂ at hg₂ fl₂ ⊢
  obtain ⟨hg₃,fl₃⟩ := dataFlow_flowed hg₂ (s.next+1) op [("out",port)]
  generalize (dataFlow F₂ (s.next+1) op [("out",port)]).1 = F₃ at hg₃ fl₃
  have hopv : op < s.next := Nat.lt_of_lt_of_le hlt hI.next
  have hmem : ∀ x ∈ F₃.graph.nodes, x ∈ s.fragment.graph.nodes ∨ x = s.next ∨ x = s.next+1 := by
    intro x hx
    rcases fl₃.nodes x hx with hx | rfl | rfl
    · rcases fl₂.nodes x hx with hx | rfl | rfl <;> simp_all
    · exact .inr (.inr rfl)
    · exact .inl (hI.base x hop)
  have hops : ∀ x, x ≠ s.next → x ≠ s.next+1 → x ≠ op → F₃.ops x = s.fragment.ops x := fun x h₁ h₂ h₃ => by
    rw [fl₃.ops_of_ne h₃,fl₂.ops_of_ne h₂]
    exact (Function.update_noteq h₂ _ _).trans (Function.update_noteq h₁ _ _)
  have hout : ∀ x, (F₃.ops x).spec.outputs = ((Function.update (Function.update s.fragment.ops s.next
      (virtualReceiverOp name port)) (s.next+1) (forwardOp fwdName .kUCX)) x).spec.outputs :=
    fun x => (fl₃.shape x).2.trans (fl₂.shape x).2
  refine ⟨hg₃,fl₃.exec (fl₂.exec ((hI.exec.update (by simp [virtualReceiverOp])).update
      (by simp [forwardOp]))),fun x hx => fl₃.nodes_sub x (fl₂.nodes_sub x (hI.base x hx)),
    fun x hx => ?_,Nat.le_add_right_of_le hI.next,fun x hx io hio => ?_,fun vop hvop => ?_⟩
  · rcases hmem x hx with hx | rfl | rfl
    · exact Nat.lt_add_right 2 (hI.fresh x hx)
    all_goals exact show _ < s.next+2 by omega
  · rw [hout] at hio
    by_cases h₂ : x = s.next+1
    · subst h₂
      simp [forwardOp] at hio
      simp [hio,IOSpec.declare]
    rw [Function.update_noteq h₂] at hio
    by_cases h₁ : x = s.next
    · subst h₁
      simp [virtualReceiverOp] at hio
      simp [hio,IOSpec.declare]
    rw [Function.update_noteq h₁] at hio
    exact hI.noUcx x ((hmem x hx).resolve_right (by omega)) io hio
  rcases List.mem_append.mp hvop with hvop | hvop
  · obtain ⟨h₁,h₂,h₃⟩ := hI.virtual vop hvop
    have hn : vop.node ≠ s.next+1 := by omega
    have ho : vop.node ≠ op := by omega
    refine ⟨h₁,show _ < s.next+2 by omega,fun hk => ⟨?_,fun e he hex => (h₃ hk).2 e ?_ hex⟩⟩
    · rw [hops _ h₂.ne hn ho]
      exact (h₃ hk).1
    · exact fl₂.edges_into hn (fl₃.edges_into ho he hex) hex
  obtain rfl := List.mem_singleton.mp hvop
  exact ⟨hI.next,show s.next < s.next+2 by omega,nofun⟩

theorem PassInv.addVirtualOp {s s' : Lowering} (hI : PassInv nodes₀ next₀ s) {op : Nat} (hop : op ∈ nodes₀)
    (hlt : op < next₀) {port : String} (hport : port ≠ "") {index : Nat} {t : IOType}
    (h : addVirtualOp op port index s t = .ok s') : PassInv nodes₀ next₀ s' := by
  cases t with
  | kOutput =>
    cases h
    exact hI.transmitter hop hlt hport _
  | kInput =>
    obtain ⟨_,-,h⟩ := (bind_eq_ok _ _ _).mp h
    cases h
    exact hI.receiver hop hlt port _ _

theorem PassInv.createVirtualOperatorsAndConnections {s s' : Lowering} (hI : PassInv nodes₀ next₀ s)
    (hlt : ∀ x ∈ nodes₀, x < next₀) {connectionMap : List (Nat × List (String × List IOType))}
    (hmap : ∀ e ∈ connectionMap, e.1 ∈ nodes₀ ∧ ∀ pc ∈ e.2, pc.1 ≠ "")
    (h : createVirtualOperatorsAndConnections connectionMap s = .ok s') : PassInv nodes₀ next₀ s' := by
  have hport : ∀ (op : Nat) (port : String), op ∈ nodes₀ → port ≠ "" → ∀ conns index s s',
      PassInv nodes₀ next₀ s → addPortConnections op port index s conns = .ok s' → PassInv nodes₀ next₀ s' := by
    intro op port hop hp conns
    induction conns with
    | nil => intro _ _ _ hI h; cases h; exact hI
    | cons t ts ih =>
      intro index s s' hI h
      obtain ⟨s₁,h₁,h⟩ := (bind_eq_ok _ _ _).mp h
      exact ih _ _ _ (hI.addVirtualOp hop (hlt op hop) hp h₁) h
  refine foldlM_ok_induction (PassInv nodes₀ next₀) (fun _ e _ he hI h => ?_) hI h
  exact foldlM_ok_induction (PassInv nodes₀ next₀)
    (fun _ pc _ hpc hI h => hport e.1 pc.1 (hmap e he).1 ((hmap e he).2 pc hpc) _ _ _ _ hI h) hI h

theorem PassInv.initial {F : Fragment Nat} {next : Nat} (hg : GraphWf F.graph) (hx : ExecWf F.ops)
    (hlt : ∀ x ∈ F.graph.nodes, x < next) (huser : ∀ x ∈ F.graph.nodes, NoUcxOutput (F.ops x)) :
    PassInv F.graph.nodes next ⟨F,next,[]⟩ :=
  ⟨hg,hx,fun _ => id,hlt,le_rfl,huser,nofun⟩

end Pass

/-! ### The graph `initialize_fragment` walks after the pass -/

section Lowered
variable {F : Fragment Nat} {next : Nat} {connectionMap : List (Nat × List (String × List IOType))}
  {s : Lowering}

/-- The pass, from a well formed fragment without UCX outputs whose nodes are below the first
free one, on a connection map of its nodes and of nonempty port names, keeps the invariant. -/
theorem createVirtualOperatorsAndConnections_inv (hg : GraphWf F.graph) (hx : ExecWf F.ops)
    (hlt : ∀ x ∈ F.graph.nodes, x < next) (huser : ∀ x ∈ F.graph.nodes, NoUcxOutput (F.ops x))
    (hmap : ∀ e ∈ connectionMap, e.1 ∈ F.graph.nodes ∧ ∀ pc ∈ e.2, pc.1 ≠ "")
    (hpass : createVirtualOperatorsAndConnections connectionMap ⟨F,next,[]⟩ = .ok s) :
    PassInv F.graph.nodes next s :=
  (PassInv.initial hg hx hlt huser).createVirtualOperatorsAndConnections hlt hmap hpass

theorem mem_prevNodes_toOperatorGraph {F : Fragment Nat} {hg : GraphWf F.graph} {hx : ExecWf F.ops}
    {u v : Nat} (h : u ∈ (toOperatorGraph F hg hx).prevNodes v) :
    ∃ e ∈ F.graph.edges, e.1 = u ∧ e.2.1 = v ∧ (toOperatorGraph F hg hx).portMap u v = some e.2.2 := by
  simp only [toOperatorGraph,OperatorGraph.ofEdges,Digraph.ofEdges,List.mem_dedup,List.mem_map,
    List.mem_filter,decide_eq_true_eq] at h ⊢
  obtain ⟨_,⟨⟨e,he,rfl⟩,rfl⟩,rfl⟩ := h
  obtain ⟨e',he'⟩ := Option.isSome_iff_exists.mp
    (List.find?_isSome.mpr ⟨e,he,by simp⟩ : (F.graph.edges.find? fun e' => e'.1 = e.1 ∧ e'.2.1 = e.2.1).isSome)
  have hp := List.find?_some he'
  simp only [decide_eq_true_eq] at hp
  exact ⟨e',List.mem_of_find?_eq_some he',hp.1,hp.2,by rw [he'];rfl⟩

theorem PassInv.transmitters {nodes₀ : List Nat} {next₀ : Nat} (hI : PassInv nodes₀ next₀ s) :
    ∀ vop ∈ s.virtualOps, vop.ioType = .kOutput →
      ((toOperatorGraph s.fragment hI.graph hI.exec).ops vop.node).operatorType = .kVirtual ∧
      ∀ u ∈ (toOperatorGraph s.fragment hI.graph hI.exec).prevNodes vop.node,
        (((toOperatorGraph s.fragment hI.graph hI.exec).portMap u vop.node).getD []).any
          (·.1 = vop.portName) := by
  intro vop hvop hk
  obtain ⟨-,-,h⟩ := hI.virtual vop hvop
  refine ⟨(h hk).1,fun u hu => ?_⟩
  obtain ⟨e,he,-,hev,hpm⟩ := mem_prevNodes_toOperatorGraph hu
  rw [hpm]
  exact (h hk).2 e he hev

/-- For every fragment whose operators' outputs carry no UCX connector, and every connection
map of its nodes with nonempty port names, the graph that `create_virtual_operators_and_connections`
builds and `connect_ucx_transmitters_to_virtual_ops` updates never makes `initialize_fragment`
fail with the UCX fan-out abort. -/
theorem createVirtualOperators_fan_out_unreached {G : OperatorGraph Nat} (hg : GraphWf F.graph)
    (hx : ExecWf F.ops) (hlt : ∀ x ∈ F.graph.nodes, x < next) (huser : ∀ x ∈ F.graph.nodes, NoUcxOutput (F.ops x))
    (hmap : ∀ e ∈ connectionMap, e.1 ∈ F.graph.nodes ∧ ∀ pc ∈ e.2, pc.1 ≠ "")
    (hpass : createVirtualOperatorsAndConnections connectionMap ⟨F,next,[]⟩ = .ok s)
    (hucx : connectUcxTransmittersToVirtualOps (toOperatorGraph s.fragment
      (createVirtualOperatorsAndConnections_inv hg hx hlt huser hmap hpass).graph
      (createVirtualOperatorsAndConnections_inv hg hx hlt huser hmap hpass).exec) s.virtualOps = .ok G)
    (policy : MetadataPolicy) (n sp : String) : initializeFragment G policy ≠ .failed (ucxFanOutAbort n sp) :=
  have hI := createVirtualOperatorsAndConnections_inv hg hx hlt huser hmap hpass
  ucxFanOut_unreached (foldlM_ok_induction (UcxInv _)
    (fun _ vop _ hv hU h => hU.step (hI.transmitters vop hv) h) (.initial hI.noUcx) hucx).ucxSingleTarget policy n sp

/-- An operator `tx` (0) whose output `out` goes to another fragment, and an operator `rx` (1)
whose input `in` comes from one. -/
def uplinkFragment : Fragment Nat :=
  ⟨fun v => if v = 0 then plainOp "tx" [] ["out"] else plainOp "rx" ["in"] [],⟨[0,1],[]⟩⟩

def uplinkMap : List (Nat × List (String × List IOType)) := [(0,[("out",[.kOutput])]),(1,[("in",[.kInput])])]

def uplinkLowered : Lowering :=
  match createVirtualOperatorsAndConnections uplinkMap ⟨uplinkFragment,2,[]⟩ with
  | .ok s => s
  | .error _ => ⟨uplinkFragment,2,[]⟩

theorem uplinkFragment_execWf : ExecWf uplinkFragment.ops := fun v q hq => by
  by_cases h : v = 0 <;> simp [uplinkFragment,plainOp,h] at hq

/-- The pass makes the transmitter 2, the receiver 3 and the forward operator 4; `tx.out`, whose
one edge goes to the transmitter, gets its UCX connector, and the fan-out abort stays out of
reach. -/
theorem uplink_fan_out_unreached :
    ∃ s G, createVirtualOperatorsAndConnections uplinkMap ⟨uplinkFragment,2,[]⟩ = .ok s ∧
      s.fragment.graph.nodes = [0,1,2,3,4] ∧ isUcxOutput (G.ops 0) "out" ∧
      ∀ n sp, initializeFragment G .kDefault ≠ .failed (ucxFanOutAbort n sp) := by
  have hg : GraphWf uplinkFragment.graph := ⟨by decide,nofun⟩
  have hlt : ∀ x ∈ uplinkFragment.graph.nodes, x < 2 := by decide
  have huser : ∀ x ∈ uplinkFragment.graph.nodes, NoUcxOutput (uplinkFragment.ops x) := by
    simp [uplinkFragment,NoUcxOutput,plainOp,IOSpec.declare]
  have hmap : ∀ e ∈ uplinkMap, e.1 ∈ uplinkFragment.graph.nodes ∧ ∀ pc ∈ e.2, pc.1 ≠ "" := by decide
  have hpass : createVirtualOperatorsAndConnections uplinkMap ⟨uplinkFragment,2,[]⟩ = .ok uplinkLowered := rfl
  have hucx : connectUcxTransmittersToVirtualOps (toOperatorGraph uplinkLowered.fragment
      (createVirtualOperatorsAndConnections_inv hg uplinkFragment_execWf hlt huser hmap hpass).graph
      (createVirtualOperatorsAndConnections_inv hg uplinkFragment_execWf hlt huser hmap hpass).exec)
      uplinkLowered.virtualOps = .ok _ := rfl
  exact ⟨_,_,hpass,rfl,(by rfl),
    createVirtualOperators_fan_out_unreached hg uplinkFragment_execWf hlt huser hmap hpass hucx .kDefault⟩

end Lowered

end VirtualOperators
end HoloscanLowering
