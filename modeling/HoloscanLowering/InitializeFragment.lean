import HoloscanLowering.Worklist
import HoloscanLowering.AddFlow
import HoloscanLowering.InitializeOperator

/-! `GXFExecutor::initialize_fragment` from its worklist loop on: the loop of `Worklist`, and
the work of one visit — the cycle check and its mitigation, `initialize()`, the connections from
initialized predecessors, the deferred connections to initialized successors, and the broadcast
entities of a source port with several targets. -/
namespace HoloscanLowering
namespace InitializeFragment

open InitializeOperator Worklist

variable {α : Type} [DecidableEq α]

/-- The operator graph of a fragment after the distributed lowering: adjacency, operators and
the port map of each edge; `input_exec_spec()` points at a declared port. -/
structure OperatorGraph (α : Type) extends Digraph α where
  ops : α → Operator
  portMap : α → α → Option PortMap
  portMap_isSome : ∀ u v, (portMap u v).isSome ↔ v ∈ nextNodes u
  inputExec_mem : ∀ v ∈ nodes, ∀ q ∈ (ops v).inputExecSpec, q ∈ (ops v).spec.inputs.map (·.name)

def OperatorGraph.ofEdges (nodes : List α) (ops : α → Operator) (edges : List (α × α × PortMap))
    (hn : nodes.Nodup) (he : ∀ e ∈ edges, e.1 ∈ nodes ∧ e.2.1 ∈ nodes)
    (hx : ∀ v ∈ nodes, ∀ q ∈ (ops v).inputExecSpec, q ∈ (ops v).spec.inputs.map (·.name)) :
    OperatorGraph α where
  toDigraph := Digraph.ofEdges nodes (edges.map fun e => (e.1,e.2.1)) hn
    (by simp only [List.mem_map]; rintro _ ⟨e,h,rfl⟩; exact he e h)
  ops := ops
  portMap u v := (edges.find? fun e => e.1 = u ∧ e.2.1 = v).map (·.2.2)
  portMap_isSome u v := by simp [Digraph.ofEdges,List.find?_isSome,and_comm]
  inputExec_mem := hx

omit [DecidableEq α] in
theorem OperatorGraph.mem_next_of_mem_portMap {G : OperatorGraph α} {u v : α} {x : String × List String}
    (h : x ∈ (G.portMap u v).getD []) : v ∈ G.nextNodes u := by
  refine (G.portMap_isSome u v).mp ?_
  cases hp : G.portMap u v with
  | none => rw [hp] at h; cases h
  | some _ => rfl

/-- An edge into `v`'s input execution port, as `add_control_flow` makes them. -/
def ControlFlowEdge (G : OperatorGraph α) (u v : α) : Prop :=
  ∃ q pm, (G.ops v).inputExecSpec = some q ∧ G.portMap u v = some pm ∧ ∃ e ∈ pm, q ∈ e.2

omit [DecidableEq α] in
theorem ControlFlowEdge.edge {G : OperatorGraph α} {u v : α} (h : ControlFlowEdge G u v) :
    G.Edge u v := by
  obtain ⟨_,_,_,hpm,_⟩ := h
  exact (G.portMap_isSome u v).mp (by simp [hpm])

inductive Endpoint (α : Type)
  | tx (op : α) (port : String)
  | rx (op : α) (port : String)
  | broadcastRx (op : α) (port : String)
  | btx (n : Nat)
  deriving DecidableEq, Repr

/-- A transmitter in the broadcast entity of output `port` of `source`, for input `targetPort`
of `target`: a double buffer (with the `min_size` of its scheduling term when the source port
has a `DownstreamMessageAffordable` condition) or a UCX transmitter. -/
structure BroadcastTx (α : Type) where
  source : α
  port : String
  kind : ConnectorType
  target : α
  targetPort : String
  minSize : Option Nat
  deriving DecidableEq, Repr

/-- The broadcast entity of output `port` of `op`, with its receiver's `min_size`. -/
structure BroadcastEntity (α : Type) where
  op : α
  port : String
  minSize : Nat
  deriving DecidableEq, Repr

/-- What the run builds: the operators as initialized, the edge data (broadcasting erases
entries), the broadcast entities and their transmitters, and every `add_connection` in order. -/
structure Plan (α : Type) where
  ops : α → Operator
  portMaps : α → α → Option PortMap
  policy : MetadataPolicy
  broadcasts : List (BroadcastEntity α)
  transmitters : List (BroadcastTx α)
  connections : List (Endpoint α × Endpoint α)

/-! ### Cycle check and mitigation -/

/-- The cycle check for `op` against `visited_nodes`, which already holds `op`:
`(cycle_detected, self_cycle)`, the loop stopping at a self-edge. -/
def detectCycle (op : α) (visited : List α) : List α → Bool × Bool
  | [] => (false,false)
  | p::ps =>
    if p = op then (true,true) else
    let r := detectCycle op visited ps
    (decide (p ∉ visited) || r.1,r.2)

/-- The mitigation on an operator with an input execution port: that port's queue size becomes
`kSizeOne` and the metadata policy `kUpdate`; on a self-cycle the output execution port gets
the condition `kNone`, through `output_exec_spec()`, null when there is no such port. -/
def mitigateCycle (o : Operator) (detected self : Bool) : Except Abort Operator :=
  match o.inputExecSpec with
  | none => .ok o
  | some q =>
    if detected then
      let inputs := updatePort o.spec.inputs q fun io => { io with queueSize := IOSpec.kSizeOne }
      let o := { o with spec := { o.spec with inputs := inputs }, metadataPolicy := .kUpdate }
      if self then
        match o.outputExecSpec with
        | none => .error (.undefined "null output_exec_spec")
        | some p =>
          let outputs := updatePort o.spec.outputs p
            fun io => { io with conditions := io.conditions++[⟨.kNone,0⟩] }
          .ok { o with spec := { o.spec with outputs := outputs } }
      else .ok o
    else .ok o

/-- `connection_count` of `create_input_port` for input `rx` of `v`: over the predecessors of
`v`, how often `rx` occurs in the target sets of the edge's port map. -/
def connectionCount (g : Digraph α) (pms : α → α → Option PortMap) (v : α) (rx : String) : Nat :=
  ((g.prevNodes v).map fun u => (((pms u v).getD []).map fun e => e.2.count rx).sum).sum

/-! ### Wiring -/

def outputSpec (o : Operator) (name : String) : Except Abort IOSpec :=
  match findPort o.spec.outputs name with
  | some io => .ok io
  | none => .error (.undefined "null output IOSpec")

def inputSpec (o : Operator) (name : String) : Except Abort IOSpec :=
  match findPort o.spec.inputs name with
  | some io => .ok io
  | none => .error (.undefined "null input IOSpec")

/-- `id() != -1`: the executor initialized the operator. A virtual operator creates no GXF
entity and keeps the id -1. -/
def isInitialized (p : Plan α) (visited : List α) (x : α) : Bool :=
  x ∈ visited && (p.ops x).operatorType ≠ .kVirtual

def setPortMap (pms : α → α → Option PortMap) (u v : α) (pm : PortMap) : α → α → Option PortMap :=
  fun a b => if a = u ∧ b = v then some pm else pms a b

/-- One target of `connect_broadcast_to_previous_op`: a transmitter in `prev`'s broadcast
entity of `port` for input `t` of `op`, of the source port's connector kind, `kDefault`
standing for UCX towards a virtual operator and for a double buffer otherwise. -/
def addBroadcastTx (op prev : α) (port t : String) (p : Plan α) : Except Abort (Plan α) := do
  let io ← outputSpec (p.ops prev) port
  let kind := if io.connectorType = .kDefault then
    (if (p.ops op).operatorType = .kVirtual then .kUCX else .kDoubleBuffer) else io.connectorType
  match kind with
  | .kDoubleBuffer =>
    let _ ← inputSpec (p.ops op) t
    let minSize := (io.conditions.find? (·.kind = .kDownstreamMessageAffordable)).map (·.minSize)
    pure { p with transmitters := p.transmitters++[⟨prev,port,.kDoubleBuffer,op,t,minSize⟩]
                  connections := p.connections++[(.btx p.transmitters.length,.rx op t)] }
  | .kUCX => pure { p with transmitters := p.transmitters++[⟨prev,port,.kUCX,op,t,none⟩] }
  | .kDefault => pure p

/-- `connect_broadcast_to_previous_op`: for each broadcast entity of `prev` whose port is a key
of the port map of `prev → op`, a transmitter per target, then the key is erased from the
edge data. -/
def connectBroadcastToPreviousOp (op prev : α) (p : Plan α) : Except Abort (Plan α) :=
  (p.broadcasts.filter (·.op = prev)).foldlM (fun p b => do
    let pm := (p.portMaps prev op).getD []
    if pm.any (·.1 = b.port) then
      let p ← (pm.targets b.port).foldlM (fun p t => addBroadcastTx op prev b.port t p) p
      pure { p with portMaps := setPortMap p.portMaps prev op (pm.erase b.port) }
    else pure p) p

/-- The direct connections from `prev` to `op` for the entries `pm` left after broadcasting:
one per target when `prev` is initialized, deferred to `prev`'s own visit otherwise; a UCX
source port may have one target only. -/
def connectDirect (op prev : α) (visited : List α) (pm : PortMap) (p : Plan α) :
    Except Abort (Plan α) :=
  pm.foldlM (fun p ⟨sp,ts⟩ => do
    let io ← outputSpec (p.ops prev) sp
    if io.connectorType ≠ .kUCX then
      ts.foldlM (fun p t => do
        let _ ← inputSpec (p.ops op) t
        pure (if isInitialized p visited prev then
          { p with connections := p.connections++[(.tx prev sp,.rx op t)] } else p)) p
    else if 1 < ts.length then
      let n := (p.ops op).name
      .error (.returnFalse s!"Source port with UCX connector is connected to multiple target ports without a Broadcast component. Op: {n} source name: {sp}")
    else pure p) p

def connectPrevious (op : α) (visited : List α) (p : Plan α) (prev : α) : Except Abort (Plan α) :=
  if prev = op then pure p else
  match p.portMaps prev op with
  | none =>
    let a := (p.ops prev).name
    let b := (p.ops op).name
    .error (.returnFalse s!"Could not find port map for {a} -> {b}")
  | some _ =>
    (if p.broadcasts.any (·.op = prev) then connectBroadcastToPreviousOp op prev p else pure p) >>=
    fun p =>
      let pm := (p.portMaps prev op).getD []
      if pm.isEmpty || (p.ops prev).operatorType = .kVirtual || (p.ops op).operatorType = .kVirtual
      then pure p else connectDirect op prev visited pm p

abbrev Targets (α : Type) := String × ConnectorType × List (α × String)

def addTarget (conns : List (Targets α)) (sp : String) (ty : ConnectorType) (n : α) (t : String) :
    List (Targets α) :=
  if conns.any (·.1 = sp) then
    conns.map fun c => if c.1 = sp then (c.1,c.2.1,if (n,t) ∈ c.2.2 then c.2.2 else c.2.2++[(n,t)]) else c
  else conns++[(sp,ty,[(n,t)])]

/-- The `connections` map of `op` over `get_next_nodes(op)`; a virtual `op` records none. -/
def collectConnections (op : α) (p : Plan α) (nexts : List α) : Except Abort (List (Targets α)) :=
  nexts.foldlM (fun conns n =>
    match p.portMaps op n with
    | none => pure conns
    | some pm =>
      if (p.ops op).operatorType = .kVirtual then pure conns else
      pm.foldlM (fun conns ⟨sp,ts⟩ => do
        let io ← outputSpec (p.ops op) sp
        pure (ts.foldl (fun conns t => addTarget conns sp io.connectorType n t) conns)) conns) []

/-- The deferred connections: every non-UCX source port of `op` to each target operator that
is already initialized (reached again around a cycle). -/
def connectDeferred (op : α) (visited : List α) (conns : List (Targets α)) (p : Plan α) :
    Except Abort (Plan α) :=
  conns.foldlM (fun p ⟨sp,ty,tgts⟩ =>
    if ty = .kUCX then pure p else
    tgts.foldlM (fun p ⟨n,t⟩ =>
      if isInitialized p visited n then do
        let _ ← inputSpec (p.ops n) t
        pure { p with connections := p.connections++[(.tx op sp,.rx n t)] }
      else pure p) p) p

/-- `create_broadcast_components`: a broadcast entity for each source port of `op` with two
targets or more, its receiver connected to the port's transmitter. -/
def createBroadcastComponents (op : α) (conns : List (Targets α)) (p : Plan α) :
    Except Abort (Plan α) :=
  conns.foldlM (fun p ⟨sp,_,tgts⟩ =>
    if tgts.length ≤ 1 then pure p else do
      let io ← outputSpec (p.ops op) sp
      let minSize := ((io.conditions.find? (·.kind = .kDownstreamMessageAffordable)).map (·.minSize)).getD 1
      pure { p with broadcasts := p.broadcasts++[⟨op,sp,minSize⟩]
                    connections := p.connections++[(.tx op sp,.broadcastRx op sp)] }) p

def connectInitializedNext (op : α) (visited : List α) (p : Plan α) (nexts : List α) :
    Except Abort (Plan α) :=
  nexts.foldlM (fun p n =>
    if isInitialized p visited n then
      match p.portMaps op n with
      | none =>
        let a := (p.ops op).name
        let b := (p.ops n).name
        .error (.returnFalse s!"Could not find port map for {a} -> {b}")
      | some _ => if p.broadcasts.any (·.op = op) then connectBroadcastToPreviousOp n op p else pure p
    else pure p) p

/-! ### One visit and the whole run -/

/-- The work of `initialize_fragment` on `op`, with `visited_nodes` already holding `op`. The
executor initializes native and wrapped operators; a virtual one only keeps its spec. -/
def visitOperator (G : OperatorGraph α) (op : α) (visited : List α) (p : Plan α) :
    Except Abort (Plan α) := do
  let r := detectCycle op visited (G.prevNodes op)
  let o ← mitigateCycle (p.ops op) r.1 r.2 >>= fun o =>
    if o.operatorType = .kVirtual then pure o
    else initializeOperator p.policy (connectionCount G.toDigraph p.portMaps op) o
  let p := { p with ops := Function.update p.ops op o }
  let p ← (G.prevNodes op).foldlM (connectPrevious op visited) p
  let conns ← collectConnections op p (G.nextNodes op)
  let p ← connectDeferred op visited conns p
  if conns.any (·.2.1 = .kUCX) || (G.nextNodes op).any (fun n => (p.ops n).operatorType = .kVirtual)
  then
    let p ← createBroadcastComponents op conns p
    if (p.ops op).operatorType = .kVirtual then pure p
    else connectInitializedNext op visited p (G.nextNodes op)
  else pure p

def initialPlan (G : OperatorGraph α) (policy : MetadataPolicy) : Plan α :=
  ⟨G.ops,G.portMap,policy,[],[],[]⟩

/-- `GXFExecutor::initialize_fragment` from the worklist loop on, under the fragment's metadata
policy. -/
def initializeFragment (G : OperatorGraph α) (policy : MetadataPolicy) : Outcome α (Plan α) Abort :=
  runWith G.toDigraph (visitOperator G) (fuelBound G.toDigraph) (initial G.toDigraph)
    (initialPlan G policy)

/-! ### What the wiring changes -/

def KeepsOps (p p' : Plan α) : Prop := p'.ops = p.ops ∧ p'.policy = p.policy

structure Keeps (T : α → Prop) (p p' : Plan α) : Prop where
  keepsOps : KeepsOps p p'
  portMaps : ∀ a b, ¬T b → p'.portMaps a b = p.portMaps a b
  sub : ∀ a b, ∀ e ∈ (p'.portMaps a b).getD [], e ∈ (p.portMaps a b).getD []

omit [DecidableEq α] in
theorem Keeps.of_eq {T : α → Prop} {p p' : Plan α} (hops : p'.ops = p.ops) (hpol : p'.policy = p.policy)
    (hpm : p'.portMaps = p.portMaps) : Keeps T p p' :=
  ⟨⟨hops,hpol⟩,fun _ _ _ => by rw [hpm],fun _ _ _ h => by rwa [hpm] at h⟩

omit [DecidableEq α] in
theorem Keeps.trans {T : α → Prop} {p q r : Plan α} (h₁ : Keeps T p q) (h₂ : Keeps T q r) :
    Keeps T p r :=
  ⟨⟨h₂.keepsOps.1.trans h₁.keepsOps.1,h₂.keepsOps.2.trans h₁.keepsOps.2⟩,
    fun a b hb => (h₂.portMaps a b hb).trans (h₁.portMaps a b hb),fun a b e he => h₁.sub a b e (h₂.sub a b e he)⟩

omit [DecidableEq α] in
theorem Keeps.mono {T T' : α → Prop} {p p' : Plan α} (h : Keeps T p p') (hT : ∀ x, T x → T' x) :
    Keeps T' p p' :=
  ⟨h.keepsOps,fun a b hb => h.portMaps a b (mt (hT b) hb),h.sub⟩

omit [DecidableEq α] in
theorem keeps_foldlM {T : α → Prop} {γ : Type} {f : Plan α → γ → Except Abort (Plan α)} {l : List γ}
    {p p' : Plan α} (hf : ∀ b x b', x ∈ l → f b x = .ok b' → Keeps T b b')
    (h : l.foldlM f p = .ok p') : Keeps T p p' :=
  foldlM_ok_induction (Keeps T p) (fun _ x _ hx hb h => hb.trans (hf _ x _ hx h)) (.of_eq rfl rfl rfl) h

omit [DecidableEq α] in
theorem addBroadcastTx_keeps {T : α → Prop} {op prev : α} {port t : String} {p p' : Plan α}
    (h : addBroadcastTx op prev port t p = .ok p') : Keeps T p p' := by
  unfold addBroadcastTx at h
  obtain ⟨io,-,h⟩ := (bind_eq_ok _ _ _).mp h
  dsimp only at h
  split at h
  · obtain ⟨_,-,h⟩ := (bind_eq_ok _ _ _).mp h
    cases (pure_eq_ok _ _).mp h
    exact .of_eq rfl rfl rfl
  all_goals cases (pure_eq_ok _ _).mp h; exact .of_eq rfl rfl rfl

theorem connectBroadcastToPreviousOp_keeps {op prev : α} {p p' : Plan α}
    (h : connectBroadcastToPreviousOp op prev p = .ok p') : Keeps (· = op) p p' := by
  refine keeps_foldlM (fun b x b' _ hb => ?_) h
  dsimp only at hb
  split at hb
  · obtain ⟨b₁,h₁,hb⟩ := (bind_eq_ok _ _ _).mp hb
    cases (pure_eq_ok _ _).mp hb
    have k₁ : Keeps (fun _ => False) b b₁ := keeps_foldlM (fun _ _ _ _ h => addBroadcastTx_keeps h) h₁
    have hpm : b₁.portMaps = b.portMaps := funext₂ fun a c => k₁.portMaps a c id
    refine (k₁.mono fun _ => False.elim).trans ⟨⟨rfl,rfl⟩,fun a c hc => ?_,fun a c e he => ?_⟩
    · simp [setPortMap,hc]
    · simp only [setPortMap] at he
      split_ifs at he with hac
      · obtain ⟨rfl,rfl⟩ := hac
        rw [hpm]
        exact (List.mem_filter.mp he).1
      · exact he
  · cases (pure_eq_ok _ _).mp hb
    exact .of_eq rfl rfl rfl

theorem connectDirect_keeps {T : α → Prop} {op prev : α} {visited : List α} {pm : PortMap}
    {p p' : Plan α} (h : connectDirect op prev visited pm p = .ok p') : Keeps T p p' := by
  refine keeps_foldlM (fun b ⟨sp,ts⟩ b' _ hb => ?_) h
  dsimp only at hb
  obtain ⟨io,-,hb⟩ := (bind_eq_ok _ _ _).mp hb
  split at hb
  · refine keeps_foldlM (fun c t c' _ hc => ?_) hb
    obtain ⟨_,-,hc⟩ := (bind_eq_ok _ _ _).mp hc
    cases (pure_eq_ok _ _).mp hc
    split <;> exact .of_eq rfl rfl rfl
  split at hb
  · cases hb
  · cases (pure_eq_ok _ _).mp hb
    exact .of_eq rfl rfl rfl

theorem broadcastFromPrevious_keeps {op prev : α} {p q : Plan α}
    (h : (if p.broadcasts.any (·.op = prev) then connectBroadcastToPreviousOp op prev p else pure p) = .ok q) :
    Keeps (· = op) p q := by
  split at h
  · exact connectBroadcastToPreviousOp_keeps h
  · cases (pure_eq_ok _ _).mp h
    exact .of_eq rfl rfl rfl

theorem connectPrevious_keeps {op : α} {visited : List α} {p p' : Plan α} {prev : α}
    (h : connectPrevious op visited p prev = .ok p') : Keeps (· = op) p p' := by
  unfold connectPrevious at h
  split at h
  · cases (pure_eq_ok _ _).mp h
    exact .of_eq rfl rfl rfl
  split at h
  · cases h
  obtain ⟨p₁,h₁,h⟩ := (bind_eq_ok _ _ _).mp h
  have k₁ := broadcastFromPrevious_keeps h₁
  dsimp only at h
  split at h
  · cases (pure_eq_ok _ _).mp h
    exact k₁
  · exact k₁.trans (connectDirect_keeps h)

theorem connectDeferred_keeps {T : α → Prop} {op : α} {visited : List α} {conns : List (Targets α)}
    {p p' : Plan α} (h : connectDeferred op visited conns p = .ok p') : Keeps T p p' := by
  refine keeps_foldlM (fun b ⟨sp,ty,tgts⟩ b' _ hb => ?_) h
  dsimp only at hb
  split at hb
  · cases (pure_eq_ok _ _).mp hb
    exact .of_eq rfl rfl rfl
  refine keeps_foldlM (fun c ⟨n,t⟩ c' _ hc => ?_) hb
  dsimp only at hc
  split at hc
  · obtain ⟨_,-,hc⟩ := (bind_eq_ok _ _ _).mp hc
    cases (pure_eq_ok _ _).mp hc
    exact .of_eq rfl rfl rfl
  · cases (pure_eq_ok _ _).mp hc
    exact .of_eq rfl rfl rfl

omit [DecidableEq α] in
theorem createBroadcastComponents_keeps {T : α → Prop} {op : α} {conns : List (Targets α)}
    {p p' : Plan α} (h : createBroadcastComponents op conns p = .ok p') : Keeps T p p' := by
  refine keeps_foldlM (fun b ⟨sp,ty,tgts⟩ b' _ hb => ?_) h
  dsimp only at hb
  split at hb
  · cases (pure_eq_ok _ _).mp hb
    exact .of_eq rfl rfl rfl
  · obtain ⟨_,-,hb⟩ := (bind_eq_ok _ _ _).mp hb
    cases (pure_eq_ok _ _).mp hb
    exact .of_eq rfl rfl rfl

theorem connectInitializedNext_keeps {op : α} {visited : List α} {p p' : Plan α}
    {nexts : List α} (h : connectInitializedNext op visited p nexts = .ok p') :
    Keeps (· ∈ visited) p p' := by
  refine keeps_foldlM (fun b n b' _ hb => ?_) h
  split at hb
  · rename_i hn
    split at hb
    · cases hb
    split at hb
    · refine (connectBroadcastToPreviousOp_keeps hb).mono fun x hx => ?_
      subst hx
      simp only [isInitialized,Bool.and_eq_true,decide_eq_true_eq] at hn
      exact hn.1
    · cases (pure_eq_ok _ _).mp hb
      exact .of_eq rfl rfl rfl
  · cases (pure_eq_ok _ _).mp hb
    exact .of_eq rfl rfl rfl

theorem visitOperator_ok {G : OperatorGraph α} {op : α} {visited : List α} {p p' : Plan α}
    (h : visitOperator G op visited p = .ok p') :
    ∃ o, (mitigateCycle (p.ops op) (detectCycle op visited (G.prevNodes op)).1
        (detectCycle op visited (G.prevNodes op)).2 >>= fun o =>
          if o.operatorType = .kVirtual then pure o
          else initializeOperator p.policy (connectionCount G.toDigraph p.portMaps op) o) = .ok o ∧
      Keeps (fun b => b = op ∨ b ∈ visited) { p with ops := Function.update p.ops op o } p' := by
  unfold visitOperator at h
  obtain ⟨o,ho,h⟩ := (bind_eq_ok _ _ _).mp h
  obtain ⟨p₁,h₁,h⟩ := (bind_eq_ok _ _ _).mp h
  obtain ⟨conns,-,h⟩ := (bind_eq_ok _ _ _).mp h
  obtain ⟨p₂,h₂,h⟩ := (bind_eq_ok _ _ _).mp h
  refine ⟨o,ho,((keeps_foldlM (fun _ _ _ _ h => (connectPrevious_keeps h).mono fun _ => .inl) h₁).trans
    (connectDeferred_keeps h₂)).trans ?_⟩
  split at h
  · obtain ⟨p₃,h₃,h⟩ := (bind_eq_ok _ _ _).mp h
    refine (createBroadcastComponents_keeps h₃).trans ?_
    split at h
    · cases (pure_eq_ok _ _).mp h
      exact .of_eq rfl rfl rfl
    · exact (connectInitializedNext_keeps h).mono fun _ => .inr
  · cases (pure_eq_ok _ _).mp h
    exact .of_eq rfl rfl rfl

/-! ### Where the cycle mitigation fires -/

theorem detectCycle_fst (op : α) (visited l : List α) :
    (detectCycle op visited l).1 = true ↔ ∃ u ∈ l, u = op ∨ u ∉ visited := by
  induction l with
  | nil => simp [detectCycle]
  | cons u us ih =>
    unfold detectCycle
    split_ifs with hu
    · simp [hu]
    · simp [ih,hu]

/-- What the mitigation does: nothing unless the check fired on an operator with an input
execution port `q`; then that port's size becomes one and the policy `kUpdate`, and on a
self-cycle the output execution port gets the condition `kNone`. -/
theorem mitigateCycle_ok {o o' : Operator} {detected self : Bool}
    (h : mitigateCycle o detected self = .ok o') :
    (∀ q, o.inputExecSpec = some q → detected = false) ∧ o' = o ∨
      ∃ q outs, o.inputExecSpec = some q ∧ detected = true ∧
        (outs = o.spec.outputs ∨ ∃ p, o.outputExecSpec = some p ∧
          outs = updatePort o.spec.outputs p fun io => { io with conditions := io.conditions++[⟨.kNone,0⟩] }) ∧
        o' = { o with
          spec := { o.spec with
            inputs := updatePort o.spec.inputs q fun io => { io with queueSize := IOSpec.kSizeOne }
            outputs := outs }
          metadataPolicy := .kUpdate } := by
  unfold mitigateCycle at h
  split at h
  · rename_i hq
    cases h
    exact .inl ⟨fun _ h' => by simp [hq] at h',rfl⟩
  rename_i q hq
  split_ifs at h with hd
  · dsimp only at h
    split at h
    · cases h
    · rename_i p hp
      cases h
      exact .inr ⟨q,_,hq,hd,.inr ⟨p,hp,rfl⟩,rfl⟩
  · cases h
    exact .inr ⟨q,_,hq,hd,.inl rfl,rfl⟩
  · cases h
    exact .inl ⟨fun _ _ => by simpa using hd,rfl⟩

/-- An operator `u` (0) with the output `out`, and an operator `d` (1) with the output `out`
and no input port, whose `std::vector<IOSpec*>` parameter `receivers` collects its inputs. -/
def receiverLoopFragment : AddFlow.Fragment Nat :=
  ⟨fun v => if v = 0 then ⟨"u",.kNative,⟨[],[IOSpec.declare "out" IOSpec.kSizeOne],[],[]⟩,none,none,.kDefault,[],[]⟩
    else ⟨"d",.kNative,⟨[],[IOSpec.declare "out" IOSpec.kSizeOne],[("receivers",[])],[]⟩,none,none,.kDefault,[],[]⟩,
    ⟨[],[]⟩⟩

def receiverLoopGraph : OperatorGraph Nat :=
  let F := AddFlow.addFlows receiverLoopFragment [(0,1,[]),(1,1,[("out","receivers")])]
  .ofEdges F.graph.nodes F.ops F.graph.edges (by decide) (by decide) (by decide)

/-- `d` has an input execution port and itself among its predecessors, through the data
self-edge, but no output execution port: the self-cycle branch of the mitigation reaches
`output_exec_spec()->condition(kNone)` on a null pointer. -/
theorem receiverLoop_null_output_exec_spec :
    (receiverLoopGraph.ops 1).inputExecSpec = some kInputExecPortName ∧
      receiverLoopGraph.portMap 1 1 = some [("out",["receivers:0"])] ∧
      (receiverLoopGraph.ops 1).outputExecSpec = none ∧
      initializeFragment receiverLoopGraph .kDefault = .failed (.undefined "null output_exec_spec") :=
  ⟨by decide,by decide,by decide,rfl⟩

theorem mitigateCycle_detected {o o' : Operator} {q : String} {self : Bool}
    (hq : o.inputExecSpec = some q) (h : mitigateCycle o true self = .ok o') :
    o'.operatorType = o.operatorType ∧ o'.inputExecSpec = some q ∧ o'.metadataPolicy = .kUpdate ∧
      o'.spec.inputs = updatePort o.spec.inputs q fun io => { io with queueSize := IOSpec.kSizeOne } := by
  rcases mitigateCycle_ok h with ⟨hn,-⟩ | ⟨q',_,hq',-,-,rfl⟩
  · cases hn q hq
  · cases hq.symm.trans hq'
    exact ⟨rfl,hq,rfl,rfl⟩

/-- The input execution port `q` of `o` after the mitigation and `initialize()`: declared, of
size `kSizeOne`, under the policy `kUpdate`; once the executor initialized the operator, its
`kDefault` receiver has capacity one and its only conditions are `MessageAvailable` with
`min_size` one or those the port had in `o₀`. -/
def ExecPortMitigated (o₀ o : Operator) (q : String) : Prop :=
  o.inputExecSpec = some q ∧ o.metadataPolicy = .kUpdate ∧ (∃ io ∈ o.spec.inputs, io.name = q) ∧
    ∀ io ∈ o.spec.inputs, io.name = q → io.queueSize = IOSpec.kSizeOne ∧
      (o.operatorType ≠ .kVirtual → (io.connectorType = .kDefault → io.capacity = some 1) ∧
        ∀ c ∈ io.conditions, c = ⟨.kMessageAvailable,1⟩ ∨
          ∃ io₀ ∈ o₀.spec.inputs, io₀.name = q ∧ c ∈ io₀.conditions)

theorem execPortMitigated_of_visit {o₀ o : Operator} {q : String} {self : Bool}
    {policy : MetadataPolicy} {count : String → Nat} (hq : o₀.inputExecSpec = some q)
    (hmem : q ∈ o₀.spec.inputs.map (·.name))
    (h : (mitigateCycle o₀ true self >>= fun o =>
      if o.operatorType = .kVirtual then pure o else initializeOperator policy count o) = .ok o) :
    ExecPortMitigated o₀ o q := by
  obtain ⟨o₁,h₁,h⟩ := (bind_eq_ok _ _ _).mp h
  obtain ⟨-,hq₁,hpol,hins⟩ := mitigateCycle_detected hq h₁
  have hport : ∀ io ∈ o₁.spec.inputs, io.name = q → io.queueSize = IOSpec.kSizeOne ∧
      ∃ io₀ ∈ o₀.spec.inputs, io₀.name = q ∧ io.conditions = io₀.conditions ∧
        io.connectorType = io₀.connectorType := by
    intro io hio hn
    obtain ⟨io₀,hio₀,hn₀,rfl⟩ := mem_updatePort (hins ▸ hio) hn
    exact ⟨rfl,io₀,hio₀,hn₀,rfl,rfl⟩
  have hex : ∃ io ∈ o₁.spec.inputs, io.name = q := by
    obtain ⟨io₀,hio₀,hn₀⟩ := List.mem_map.mp hmem
    exact ⟨{ io₀ with queueSize := IOSpec.kSizeOne },hins ▸ mem_updatePort_of_mem hio₀ hn₀,hn₀⟩
  split at h
  · cases (pure_eq_ok _ _).mp h
    exact ⟨hq₁,hpol,hex,fun io hio hn => ⟨(hport io hio hn).1,fun hv => absurd ‹_› hv⟩⟩
  obtain ⟨ins,outs,rfl,hin,-⟩ := initializeOperator_ok h
  refine ⟨hq₁,by simp [hpol],?_,fun io' hio' hn => ?_⟩
  · obtain ⟨io,hio,hn⟩ := hex
    obtain ⟨io',hio',hc⟩ := forall₂_exists_left hin hio
    exact ⟨io',hio',(createInputPort_ok hc).1.trans hn⟩
  obtain ⟨io,hio,hc⟩ := forall₂_exists_right hin hio'
  obtain ⟨hname,hsize,hconn,hres⟩ := createInputPort_ok hc
  obtain ⟨hs1,io₀,hio₀,hn₀,hcond,-⟩ := hport io hio (hname ▸ hn)
  have hres := hres (by rw [hs1]; decide)
  rw [resolvedQueueSize_sizeOne _ hs1] at hres
  refine ⟨hsize.trans hs1,fun _ => ⟨fun hd => hres.2.1 (hconn ▸ hd),fun c hc => ?_⟩⟩
  rw [hres.2.2] at hc
  split_ifs at hc
  · exact .inl (by simpa using hc)
  · exact .inr ⟨io₀,hio₀,hn₀,hcond ▸ hc⟩

/-- Along a run: operators not yet visited are as in the graph, and each visited operator on
which the cycle check fired has its input execution port mitigated. -/
structure MitigationInv (G : OperatorGraph α) (visited : List α) (p : Plan α) : Prop where
  unvisited : ∀ x ∉ visited, p.ops x = G.ops x
  mitigated : EachVisit (fun x older => x ∈ G.nodes → ∀ q, (G.ops x).inputExecSpec = some q →
    (detectCycle x (x::older) (G.prevNodes x)).1 = true → ExecPortMitigated (G.ops x) (p.ops x) q) visited

theorem MitigationInv.visit {G : OperatorGraph α} {op : α} {visited : List α} {p p' : Plan α}
    (hI : MitigationInv G visited p) (hop : op ∉ visited)
    (h : visitOperator G op (op::visited) p = .ok p') : MitigationInv G (op::visited) p' := by
  obtain ⟨o,ho,hk⟩ := visitOperator_ok h
  have hops : p'.ops = Function.update p.ops op o := hk.keepsOps.1
  have hfix : ∀ x ∈ visited, p'.ops x = p.ops x := fun x hx => by
    rw [hops,Function.update_noteq (fun h : x = op => hop (h ▸ hx))]
  refine ⟨fun x hx => ?_,⟨fun hmem q hq hd => ?_,hI.mitigated.imp fun x older hx hQ hm q hq hd => ?_⟩⟩
  · rw [hops,Function.update_noteq (fun h : x = op => hx (h ▸ List.mem_cons_self _ _))]
    exact hI.unvisited x fun h => hx (List.mem_cons_of_mem _ h)
  · rw [hI.unvisited op hop,hd] at ho
    rw [hops,Function.update_same]
    exact execPortMitigated_of_visit hq (G.inputExec_mem op hmem q hq) ho
  · rw [hfix x hx]
    exact hQ hm q hq hd

/-- Every directed cycle of edges into input execution ports, whatever the graph and its
insertion order, has an operator whose input execution port is mitigated: size `kSizeOne`
in place of `kPrecedingCount`, receiver capacity one, `min_size` one, policy `kUpdate`. -/
theorem control_flow_cycle_mitigated {G : OperatorGraph α} {policy : MetadataPolicy}
    {s : Schedule α} {p : Plan α} (hrun : initializeFragment G policy = .finished s p) {c : List α}
    (hc : Digraph.IsCycle (ControlFlowEdge G) c) :
    ∃ v ∈ c, ∃ q, (G.ops v).inputExecSpec = some q ∧ ExecPortMitigated (G.ops v) (p.ops v) q := by
  have hI := runWith_invariant (MitigationInv G) (fun _ _ _ _ _ hop h hI => hI.visit hop h) hrun
    inv_initial (⟨fun _ _ => rfl,trivial⟩ : MitigationInv G [] (initialPlan G policy))
  have hall := (visited_of_run_initial (runWith_run hrun)).2
  have hpred := hc.exists_pred
  have hnodes : ∀ y ∈ c, y ∈ G.nodes := fun y hy =>
    let ⟨_,_,he⟩ := hpred y hy
    (G.mem_nodes he.edge).2
  obtain ⟨v₀,vs,rfl,-⟩ := hc
  obtain ⟨L₁,v,older,hL,hv,hold⟩ :=
    exists_oldest ⟨v₀,List.mem_cons_self _ _,hall v₀ (hnodes v₀ (List.mem_cons_self _ _))⟩
  obtain ⟨u,hu,hcf⟩ := hpred v hv
  have he := hcf.edge
  obtain ⟨q,-,hq,-⟩ := hcf
  refine ⟨v,hv,q,hq,hI.mitigated.of_eq_append hL (hnodes v hv) q hq ?_⟩
  refine (detectCycle_fst _ _ _).mpr ⟨u,G.mem_prev.mpr he,?_⟩
  by_cases huv : u = v
  · exact .inl huv
  · exact .inr fun h => (List.mem_cons.mp h).elim huv (hold u hu)

def controlFlowOp (name : String) (out : Bool) : Operator where
  name := name
  operatorType := .kNative
  spec := ⟨[IOSpec.declare kInputExecPortName IOSpec.kPrecedingCount],
    if out then [IOSpec.declare kOutputExecPortName IOSpec.kSizeOne] else [],[],[]⟩
  inputExecSpec := some kInputExecPortName
  outputExecSpec := if out then some kOutputExecPortName else none
  metadataPolicy := .kDefault
  nonDefaultInputPorts := []
  nonDefaultOutputPorts := []

def cycleJoin : OperatorGraph Nat :=
  .ofEdges [0,1,2] (fun v => controlFlowOp (["J","A","B"].getD v "") (v ≠ 0))
    [(1,2,controlFlowPortMap),(2,1,controlFlowPortMap),(2,0,controlFlowPortMap)] (by decide) (by decide) (by decide)

theorem cycleJoin_cycle_mitigated :
    ∃ s p, initializeFragment cycleJoin .kDefault = .finished s p ∧
      ∃ v ∈ [1,2], ∃ q, (cycleJoin.ops v).inputExecSpec = some q ∧
        ExecPortMitigated (cycleJoin.ops v) (p.ops v) q := by
  have h : initializeFragment cycleJoin .kDefault = .finished _ _ := rfl
  refine ⟨_,_,h,control_flow_cycle_mitigated h ⟨1,[2],rfl,?_⟩⟩
  refine List.Chain.cons ?_ (List.Chain.cons ?_ List.Chain.nil) <;>
    exact ⟨kInputExecPortName,controlFlowPortMap,rfl,rfl,by decide⟩

/-- The cycle check at `x` fires for a predecessor `u` that is `x` itself or is visited after
`x`. Every such `u` is reachable from a directed cycle; `x` need not lie on one. -/
theorem cycle_check_culprit_from_cycle {G : OperatorGraph α} {policy : MetadataPolicy}
    {s : Schedule α} {p : Plan α} (hrun : initializeFragment G policy = .finished s p) {x u : α}
    (hu : u ∈ G.prevNodes x) (hx : u = x ∨ [x,u].Sublist s.visited.reverse) : G.FromCycle u := by
  obtain ⟨s',hrun',hlate⟩ := late_predecessor_from_cycle (g := G.toDigraph)
  rw [runWith_run hrun] at hrun'
  cases hrun'
  exact hlate x u hu hx

theorem cycleJoin_culprit_from_cycle :
    ∃ s p, initializeFragment cycleJoin .kDefault = .finished s p ∧ cycleJoin.FromCycle 2 := by
  have h : initializeFragment cycleJoin .kDefault = .finished _ _ := rfl
  exact ⟨_,_,h,cycle_check_culprit_from_cycle h (x := 0) (by decide) (.inr (by decide))⟩

/-- The join `J` is visited before `B` after the refill and gets the mitigation, policy
`kUpdate` and execution queue `kSizeOne`, though no path leads from `J` back to `B`. -/
theorem cycleJoin_join_mitigated_off_cycle :
    ∃ s p, initializeFragment cycleJoin .kDefault = .finished s p ∧ 2 ∈ cycleJoin.prevNodes 0 ∧
      [0,2].Sublist s.visited.reverse ∧ (p.ops 0).metadataPolicy = .kUpdate ∧
      (p.ops 0).spec.inputs.map (·.queueSize) = [IOSpec.kSizeOne] ∧
      ¬Relation.ReflTransGen cycleJoin.Edge 0 2 := by
  refine ⟨_,_,rfl,by decide,by decide,by decide,by decide,fun h => ?_⟩
  have hJ : cycleJoin.nextNodes 0 = [] := by decide
  rcases h.cases_head with h | ⟨c,hc,-⟩
  · exact absurd h (by decide)
  · simp [Digraph.Edge,hJ] at hc

/-! ### Delivery paths of an edge -/

def directPaths (p : Plan α) (u : α) (sp : String) (v : α) (q : String) : Nat :=
  p.connections.count (.tx u sp,.rx v q)

def broadcastPaths (p : Plan α) (u : α) (sp : String) (v : α) (q : String) : Nat :=
  (p.connections.filter fun c => match c with
    | (.btx i,.rx w t) => decide (w = v ∧ t = q) &&
      (p.transmitters.get? i).any fun b => decide (b.source = u ∧ b.port = sp)
    | _ => false).length

def dataOp (name : String) : Operator :=
  ⟨name,.kNative,⟨[IOSpec.declare "in" IOSpec.kSizeOne],[IOSpec.declare "out" IOSpec.kSizeOne],[],[]⟩,
    none,none,.kDefault,[],[]⟩

def fanOutCycle : OperatorGraph Nat :=
  .ofEdges [0,1,2]
    (fun v => if v = 2 then ⟨"virtual_A_out_0",.kVirtual,⟨[IOSpec.declare "out" IOSpec.kSizeOne],[],[],[]⟩,
      none,none,.kDefault,[],[]⟩ else dataOp (["B","A"].getD v ""))
    [(0,1,[("out",["in"])]),(1,0,[("out",["in"])]),(1,2,[("out",["out"])])]
    (by decide) (by decide) (by decide)

/-- `A.out` reaches `B.in` twice: `B`, visited first, is already initialized when `A` is
visited, so the deferred wiring connects `A.out` to `B.in` directly, and the broadcast entity
that `A.out` then gets, for the virtual operator, adds a transmitter into `B.in` as well. -/
theorem fanOutCycle_edge_wired_twice :
    ∃ s p, initializeFragment fanOutCycle .kDefault = .finished s p ∧
      directPaths p 1 "out" 0 "in" = 1 ∧ broadcastPaths p 1 "out" 0 "in" = 1 :=
  ⟨_,_,rfl,by decide,by decide⟩

/-! ### `kPrecedingCount` resolved on the port maps as composed -/

theorem mitigateCycle_precedingCount {o o' : Operator} {detected self : Bool}
    (h : mitigateCycle o detected self = .ok o') :
    o'.operatorType = o.operatorType ∧ o'.spec.multiPortConditions = o.spec.multiPortConditions ∧
      o'.nonDefaultInputPorts = o.nonDefaultInputPorts ∧
      ∀ io ∈ o'.spec.inputs, io.queueSize = IOSpec.kPrecedingCount → io ∈ o.spec.inputs := by
  rcases mitigateCycle_ok h with ⟨-,rfl⟩ | ⟨q,_,-,-,-,rfl⟩
  · exact ⟨rfl,rfl,rfl,fun io hio _ => hio⟩
  refine ⟨rfl,rfl,rfl,fun io hio hq => ?_⟩
  obtain ⟨io₀,h₀,rfl⟩ := List.mem_map.mp hio
  split_ifs at hq ⊢
  · simp [IOSpec.kSizeOne,IOSpec.kPrecedingCount] at hq
  · exact h₀

/-- Each `kPrecedingCount` input of the operator `x` as initialized: `count` connections into
it, at least one, its `kDefault` receiver of that capacity, and the default condition, when
the declared port takes one, with `min_size` `count`. -/
def PrecedingCountResolved (G : OperatorGraph α) (pms : α → α → Option PortMap) (x : α) (o : Operator) : Prop :=
  ∀ io ∈ o.spec.inputs, io.queueSize = IOSpec.kPrecedingCount →
    1 ≤ connectionCount G.toDigraph pms x io.name ∧
    (io.connectorType = .kDefault → io.capacity = some (connectionCount G.toDigraph pms x io.name : Int)) ∧
    ∃ io₀ ∈ (G.ops x).spec.inputs, io₀.name = io.name ∧
      io.conditions = if takesDefaultCondition (G.ops x) io₀
        then [⟨.kMessageAvailable,connectionCount G.toDigraph pms x io.name⟩] else io₀.conditions

omit [DecidableEq α] in
theorem precedingCountResolved_of_visit {G : OperatorGraph α} {pms : α → α → Option PortMap} {x : α}
    {o : Operator} {detected self : Bool} {policy : MetadataPolicy}
    (hv : (G.ops x).operatorType ≠ .kVirtual)
    (h : (mitigateCycle (G.ops x) detected self >>= fun o => if o.operatorType = .kVirtual then pure o
      else initializeOperator policy (connectionCount G.toDigraph pms x) o) = .ok o) :
    PrecedingCountResolved G pms x o := by
  obtain ⟨o₁,h₁,h⟩ := (bind_eq_ok _ _ _).mp h
  obtain ⟨hty,hmp,hnd,hpc⟩ := mitigateCycle_precedingCount h₁
  rw [if_neg (hty ▸ hv)] at h
  obtain ⟨ins,outs,rfl,hin,-⟩ := initializeOperator_ok h
  intro io hio hq
  obtain ⟨io₁,hio₁,hc⟩ := forall₂_exists_right hin hio
  obtain ⟨hname,hsize,hconn,hres⟩ := createInputPort_ok hc
  have hq₁ : io₁.queueSize = IOSpec.kPrecedingCount := hsize ▸ hq
  obtain ⟨hpos,hcap,hcond⟩ := hres (by rw [hq₁]; decide)
  have hdef : takesDefaultCondition o₁ io₁ = takesDefaultCondition (G.ops x) io₁ := by
    simp only [takesDefaultCondition,hmp,hnd]
  simp only [resolvedQueueSize,hq₁,if_true] at hpos hcap hcond
  rw [hname]
  refine ⟨by exact_mod_cast hpos,fun hd => hcap (hconn ▸ hd),io₁,hpc io₁ hio₁ hq₁,rfl,?_⟩
  rw [hcond,hdef]
  simp

/-- Along a run: operators, and edge data into operators, not yet visited are as in the graph,
and each visited non-virtual operator has its `kPrecedingCount` inputs resolved from the port
maps of the graph. -/
structure CountInv (G : OperatorGraph α) (visited : List α) (p : Plan α) : Prop where
  ops : ∀ x ∉ visited, p.ops x = G.ops x
  portMaps : ∀ a b, b ∉ visited → p.portMaps a b = G.portMap a b
  resolved : ∀ x ∈ visited, (G.ops x).operatorType ≠ .kVirtual → PrecedingCountResolved G G.portMap x (p.ops x)

theorem CountInv.visit {G : OperatorGraph α} {op : α} {visited : List α} {p p' : Plan α}
    (hI : CountInv G visited p) (hop : op ∉ visited)
    (h : visitOperator G op (op::visited) p = .ok p') : CountInv G (op::visited) p' := by
  obtain ⟨o,ho,hk⟩ := visitOperator_ok h
  have hops : p'.ops = Function.update p.ops op o := hk.keepsOps.1
  have hpm : ∀ u, p.portMaps u op = G.portMap u op := fun u => hI.portMaps u op hop
  have hcount : connectionCount G.toDigraph p.portMaps op = connectionCount G.toDigraph G.portMap op := by
    funext rx
    simp only [connectionCount,hpm]
  refine ⟨fun x hx => ?_,fun a b hb => ?_,fun x hx hv => ?_⟩
  · rw [hops,Function.update_noteq (fun h : x = op => hx (h ▸ List.mem_cons_self _ _))]
    exact hI.ops x fun h => hx (List.mem_cons_of_mem _ h)
  · rw [hk.portMaps a b fun h => hb (h.elim (· ▸ List.mem_cons_self _ _) id)]
    exact hI.portMaps a b fun h => hb (List.mem_cons_of_mem _ h)
  · rcases List.mem_cons.mp hx with rfl | hx
    · rw [hops,Function.update_same]
      rw [hI.ops x hop,hcount] at ho
      exact precedingCountResolved_of_visit hv ho
    · rw [hops,Function.update_noteq (fun h : x = op => hop (h ▸ hx))]
      exact hI.resolved x hx hv

/-- For every operator graph and every run of `initialize_fragment` that finishes, each
`kPrecedingCount` input of a non-virtual operator `v` that the cycle mitigation left at
`kPrecedingCount` was resolved to `n`, the connections into it counted on the port maps as
composed (before any broadcast erase): `n ≥ 1`, since `n = 0` raises; its `kDefault` receiver
has capacity `n`; and its default `MessageAvailable` condition, when the declared port takes
one, has `min_size` `n`. -/
theorem precedingCount_resolved_on_composed_maps {G : OperatorGraph α} {policy : MetadataPolicy}
    {s : Schedule α} {p : Plan α} (hrun : initializeFragment G policy = .finished s p) {v : α}
    (hv : v ∈ G.nodes) (hnv : (G.ops v).operatorType ≠ .kVirtual) :
    ∀ io ∈ (p.ops v).spec.inputs, io.queueSize = IOSpec.kPrecedingCount →
      1 ≤ connectionCount G.toDigraph G.portMap v io.name ∧
      (io.connectorType = .kDefault → io.capacity = some (connectionCount G.toDigraph G.portMap v io.name : Int)) ∧
      ∃ io₀ ∈ (G.ops v).spec.inputs, io₀.name = io.name ∧
        io.conditions = if takesDefaultCondition (G.ops v) io₀
          then [⟨.kMessageAvailable,connectionCount G.toDigraph G.portMap v io.name⟩] else io₀.conditions := by
  have hI := runWith_invariant (CountInv G) (fun _ _ _ _ _ hop h hI => hI.visit hop h) hrun inv_initial
    (⟨fun _ _ => rfl,fun _ _ _ => rfl,fun _ h => absurd h (List.not_mem_nil _)⟩ :
      CountInv G [] (initialPlan G policy))
  exact hI.resolved v ((visited_of_run_initial (runWith_run hrun)).2 v hv) hnv

def precedingJoin : OperatorGraph Nat :=
  .ofEdges [0,1,2]
    (fun v => if v = 2 then ⟨"C",.kNative,⟨[IOSpec.declare "in" IOSpec.kPrecedingCount],[],[],[]⟩,none,none,.kDefault,[],[]⟩
      else ⟨["A","B"].getD v "",.kNative,⟨[],[IOSpec.declare "out" IOSpec.kSizeOne],[],[]⟩,none,none,.kDefault,[],[]⟩)
    [(0,2,[("out",["in"])]),(1,2,[("out",["in"])])] (by decide) (by decide) (by decide)

theorem precedingJoin_in_resolved :
    ∃ s p, initializeFragment precedingJoin .kDefault = .finished s p ∧
      connectionCount precedingJoin.toDigraph precedingJoin.portMap 2 "in" = 2 ∧
      ∀ io ∈ (p.ops 2).spec.inputs, io.queueSize = IOSpec.kPrecedingCount →
        1 ≤ connectionCount precedingJoin.toDigraph precedingJoin.portMap 2 io.name ∧
        (io.connectorType = .kDefault →
          io.capacity = some (connectionCount precedingJoin.toDigraph precedingJoin.portMap 2 io.name : Int)) ∧
        ∃ io₀ ∈ (precedingJoin.ops 2).spec.inputs, io₀.name = io.name ∧
          io.conditions = if takesDefaultCondition (precedingJoin.ops 2) io₀
            then [⟨.kMessageAvailable,connectionCount precedingJoin.toDigraph precedingJoin.portMap 2 io.name⟩]
            else io₀.conditions := by
  have h : initializeFragment precedingJoin .kDefault = .finished _ _ := rfl
  exact ⟨_,_,h,by decide,precedingCount_resolved_on_composed_maps h (by decide) (by decide)⟩

/-! ### The UCX fan-out check -/

def ucxFanOutAbort (n sp : String) : Abort :=
  .returnFalse s!"Source port with UCX connector is connected to multiple target ports without a Broadcast component. Op: {n} source name: {sp}"

def NotUcxFanOut (e : Abort) : Prop := ∀ n sp, e ≠ ucxFanOutAbort n sp

theorem notUcxFanOut_exception (m : String) : NotUcxFanOut (.exception m) := fun _ _ h => by cases h

theorem notUcxFanOut_undefined (w : String) : NotUcxFanOut (.undefined w) := fun _ _ h => by cases h

theorem notUcxFanOut_portMap (a b : String) :
    NotUcxFanOut (.returnFalse s!"Could not find port map for {a} -> {b}") := fun _ _ h => by
  injection h with h
  have h := congrArg (fun s : String => s.data.head?) h
  change some 'C' = some 'S' at h
  cases h

/-- Every entry of an edge between non-virtual operators whose source port has a UCX connector
has one target at most: the condition the fan-out check of `connectDirect` tests. -/
def UcxSingleTarget (ops : α → Operator) (pms : α → α → Option PortMap) : Prop :=
  ∀ u v, (ops u).operatorType ≠ .kVirtual → (ops v).operatorType ≠ .kVirtual →
    ∀ x ∈ (pms u v).getD [], isUcxOutput (ops u) x.1 → x.2.length ≤ 1

omit [DecidableEq α] in
theorem UcxSingleTarget.mono {ops ops' : α → Operator} {pms pms' : α → α → Option PortMap}
    (h : UcxSingleTarget ops pms) (hops : ∀ x, outputShape (ops' x) = outputShape (ops x))
    (hpm : ∀ a b, ∀ x ∈ (pms' a b).getD [], x ∈ (pms a b).getD []) : UcxSingleTarget ops' pms' := by
  intro u v hu hv x hx hucx
  have hty : ∀ y, (ops' y).operatorType = (ops y).operatorType := fun y => congrArg Prod.fst (hops y)
  exact h u v (hty u ▸ hu) (hty v ▸ hv) x (hpm u v x hx) (isUcxOutput_of_outputShape (hops u) x.1 ▸ hucx)

omit [DecidableEq α] in
theorem Keeps.ucxSingleTarget {T : α → Prop} {p p' : Plan α} (hk : Keeps T p p')
    (h : UcxSingleTarget p.ops p.portMaps) : UcxSingleTarget p'.ops p'.portMaps :=
  h.mono (fun x => by rw [hk.keepsOps.1]) hk.sub

theorem outputShape_update {ops : α → Operator} {op : α} {o : Operator}
    (h : outputShape o = outputShape (ops op)) (x : α) :
    outputShape (Function.update ops op o x) = outputShape (ops x) := by
  by_cases hx : x = op
  · rw [hx,Function.update_same,h]
  · rw [Function.update_noteq hx]

theorem mitigateCycle_outputShape {o o' : Operator} {detected self : Bool}
    (h : mitigateCycle o detected self = .ok o') : outputShape o' = outputShape o := by
  rcases mitigateCycle_ok h with ⟨-,rfl⟩ | ⟨q,_,-,-,houts,rfl⟩
  · rfl
  rcases houts with rfl | ⟨p,-,rfl⟩
  · rfl
  · exact congrArg (o.operatorType,·) (map_updatePort fun _ => rfl)

theorem initialized_outputShape {o o' : Operator} {detected self : Bool} {policy : MetadataPolicy}
    {count : String → Nat} (h : (mitigateCycle o detected self >>= fun o =>
      if o.operatorType = .kVirtual then pure o else initializeOperator policy count o) = .ok o') :
    outputShape o' = outputShape o := by
  obtain ⟨o₁,h₁,h⟩ := (bind_eq_ok _ _ _).mp h
  rw [← mitigateCycle_outputShape h₁]
  split at h
  · cases (pure_eq_ok _ _).mp h; rfl
  · exact initializeOperator_outputShape h

theorem visitOperator_ucxSingleTarget {G : OperatorGraph α} {op : α} {visited : List α}
    {p p' : Plan α} (hp : UcxSingleTarget p.ops p.portMaps) (h : visitOperator G op visited p = .ok p') :
    UcxSingleTarget p'.ops p'.portMaps := by
  obtain ⟨o,ho,hk⟩ := visitOperator_ok h
  exact hk.ucxSingleTarget (hp.mono (outputShape_update (initialized_outputShape ho)) fun _ _ _ => id)

/-! Every way a visit can fail, sorted by whether it is the fan-out abort. -/

theorem mitigateCycle_error {o : Operator} {detected self : Bool} {e : Abort}
    (h : mitigateCycle o detected self = .error e) : NotUcxFanOut e := by
  unfold mitigateCycle at h
  split at h
  · cases h
  split_ifs at h
  · dsimp only at h
    split at h
    · cases h
      exact notUcxFanOut_undefined _
    · cases h

theorem outputSpec_error {o : Operator} {name : String} {e : Abort} (h : outputSpec o name = .error e) :
    NotUcxFanOut e := by
  unfold outputSpec at h
  split at h <;> cases h
  exact notUcxFanOut_undefined _

theorem inputSpec_error {o : Operator} {name : String} {e : Abort} (h : inputSpec o name = .error e) :
    NotUcxFanOut e := by
  unfold inputSpec at h
  split at h <;> cases h
  exact notUcxFanOut_undefined _

theorem isUcxOutput_of_outputSpec {o : Operator} {name : String} {io : IOSpec}
    (h : outputSpec o name = .ok io) (hu : io.connectorType = .kUCX) : isUcxOutput o name := by
  unfold outputSpec at h
  split at h <;> cases h
  exact isUcxOutput_iff.mpr ⟨io,‹_›,hu⟩

omit [DecidableEq α] in
theorem addBroadcastTx_error {op prev : α} {port t : String} {p : Plan α} {e : Abort}
    (h : addBroadcastTx op prev port t p = .error e) : NotUcxFanOut e := by
  unfold addBroadcastTx at h
  rcases (bind_eq_error _ _ _).mp h with h | ⟨_,-,h⟩
  · exact outputSpec_error h
  dsimp only at h
  split at h
  · rcases (bind_eq_error _ _ _).mp h with h | ⟨_,-,h⟩
    · exact inputSpec_error h
    · cases h
  all_goals cases h

theorem connectBroadcastToPreviousOp_error {op prev : α} {p : Plan α} {e : Abort}
    (h : connectBroadcastToPreviousOp op prev p = .error e) : NotUcxFanOut e := by
  obtain ⟨-,_,-,_,-,-,h⟩ := foldlM_eq_error h
  dsimp only at h
  split at h
  · rcases (bind_eq_error _ _ _).mp h with h | ⟨_,-,h⟩
    · obtain ⟨-,_,-,_,-,-,h⟩ := foldlM_eq_error h
      exact addBroadcastTx_error h
    · cases h
  · cases h

theorem connectDirect_error {op prev : α} {visited : List α} {pm : PortMap} {p : Plan α} {e : Abort}
    (hpm : ∀ x ∈ pm, isUcxOutput (p.ops prev) x.1 → x.2.length ≤ 1)
    (h : connectDirect op prev visited pm p = .error e) : NotUcxFanOut e := by
  obtain ⟨l₁,⟨sp,ts⟩,l₂,q,rfl,hq,h⟩ := foldlM_eq_error h
  have hops : q.ops = p.ops := (connectDirect_keeps (T := fun _ => False) hq).keepsOps.1
  dsimp only at h
  rcases (bind_eq_error _ _ _).mp h with h | ⟨io,hio,h⟩
  · exact outputSpec_error h
  split at h
  · obtain ⟨-,_,-,_,-,-,h⟩ := foldlM_eq_error h
    rcases (bind_eq_error _ _ _).mp h with h | ⟨_,-,h⟩
    · exact inputSpec_error h
    · cases h
  split at h
  · rename_i hucx hlen
    have hu := isUcxOutput_of_outputSpec hio (not_not.mp hucx)
    rw [hops] at hu
    exact absurd (hpm (sp,ts) (by simp) hu) (by simpa using hlen)
  · cases h

theorem connectPrevious_error {op : α} {visited : List α} {p : Plan α} {prev : α} {e : Abort}
    (hp : UcxSingleTarget p.ops p.portMaps) (h : connectPrevious op visited p prev = .error e) :
    NotUcxFanOut e := by
  unfold connectPrevious at h
  split at h
  · cases h
  split at h
  · cases h
    exact notUcxFanOut_portMap _ _
  rcases (bind_eq_error _ _ _).mp h with h | ⟨q,hq,h⟩
  · split at h
    · exact connectBroadcastToPreviousOp_error h
    · cases h
  have hk := broadcastFromPrevious_keeps hq
  dsimp only at h
  split at h
  · cases h
  · rename_i hne
    simp only [Bool.or_eq_true,decide_eq_true_eq,not_or] at hne
    exact connectDirect_error (fun x hx => hk.ucxSingleTarget hp prev op hne.1.2 hne.2 x hx) h

theorem collectConnections_error {op : α} {p : Plan α} {nexts : List α} {e : Abort}
    (h : collectConnections op p nexts = .error e) : NotUcxFanOut e := by
  obtain ⟨-,_,-,_,-,-,h⟩ := foldlM_eq_error h
  split at h
  · cases h
  split at h
  · cases h
  obtain ⟨-,_,-,_,-,-,h⟩ := foldlM_eq_error h
  rcases (bind_eq_error _ _ _).mp h with h | ⟨_,-,h⟩
  · exact outputSpec_error h
  · cases h

theorem connectDeferred_error {op : α} {visited : List α} {conns : List (Targets α)} {p : Plan α}
    {e : Abort} (h : connectDeferred op visited conns p = .error e) : NotUcxFanOut e := by
  obtain ⟨-,_,-,_,-,-,h⟩ := foldlM_eq_error h
  dsimp only at h
  split at h
  · cases h
  obtain ⟨-,_,-,_,-,-,h⟩ := foldlM_eq_error h
  split at h
  · rcases (bind_eq_error _ _ _).mp h with h | ⟨_,-,h⟩
    · exact inputSpec_error h
    · cases h
  · cases h

omit [DecidableEq α] in
theorem createBroadcastComponents_error {op : α} {conns : List (Targets α)} {p : Plan α} {e : Abort}
    (h : createBroadcastComponents op conns p = .error e) : NotUcxFanOut e := by
  obtain ⟨-,_,-,_,-,-,h⟩ := foldlM_eq_error h
  dsimp only at h
  split at h
  · cases h
  rcases (bind_eq_error _ _ _).mp h with h | ⟨_,-,h⟩
  · exact outputSpec_error h
  · cases h

theorem connectInitializedNext_error {op : α} {visited : List α} {p : Plan α} {nexts : List α}
    {e : Abort} (h : connectInitializedNext op visited p nexts = .error e) : NotUcxFanOut e := by
  obtain ⟨-,_,-,_,-,-,h⟩ := foldlM_eq_error h
  split at h
  · split at h
    · cases h
      exact notUcxFanOut_portMap _ _
    split at h
    · exact connectBroadcastToPreviousOp_error h
    · cases h
  · cases h

theorem visitOperator_error {G : OperatorGraph α} {op : α} {visited : List α} {p : Plan α}
    {e : Abort} (hp : UcxSingleTarget p.ops p.portMaps) (h : visitOperator G op visited p = .error e) :
    NotUcxFanOut e := by
  unfold visitOperator at h
  rcases (bind_eq_error _ _ _).mp h with h | ⟨o,ho,h⟩
  · rcases (bind_eq_error _ _ _).mp h with h | ⟨_,-,h⟩
    · exact mitigateCycle_error h
    split at h
    · cases h
    · obtain ⟨m,rfl⟩ := initializeOperator_error h
      exact notUcxFanOut_exception m
  have hp₀ : UcxSingleTarget (Function.update p.ops op o) p.portMaps :=
    hp.mono (outputShape_update (initialized_outputShape ho)) fun _ _ _ => id
  rcases (bind_eq_error _ _ _).mp h with h | ⟨_,-,h⟩
  · obtain ⟨_,_,_,q,-,hq,h⟩ := foldlM_eq_error h
    exact connectPrevious_error ((keeps_foldlM (fun _ _ _ _ h => connectPrevious_keeps h) hq).ucxSingleTarget hp₀) h
  rcases (bind_eq_error _ _ _).mp h with h | ⟨_,-,h⟩
  · exact collectConnections_error h
  rcases (bind_eq_error _ _ _).mp h with h | ⟨_,-,h⟩
  · exact connectDeferred_error h
  split at h
  · rcases (bind_eq_error _ _ _).mp h with h | ⟨_,-,h⟩
    · exact createBroadcastComponents_error h
    split at h
    · cases h
    · exact connectInitializedNext_error h
  · cases h

/-- When every UCX source port of an edge between non-virtual operators has one target at most,
`initialize_fragment` never fails with the fan-out abort: the port maps are only erased from,
and the initialization keeps every operator's type and output connector kinds. -/
theorem ucxFanOut_unreached {G : OperatorGraph α} (hG : UcxSingleTarget G.ops G.portMap)
    (policy : MetadataPolicy) (n sp : String) :
    initializeFragment G policy ≠ .failed (ucxFanOutAbort n sp) := fun h => by
  obtain ⟨_,_,p,-,-,hp,h⟩ := runWith_failed (fun _ p => UcxSingleTarget p.ops p.portMaps)
    (fun _ _ _ _ _ _ h hp => visitOperator_ucxSingleTarget hp h) h inv_initial hG
  exact visitOperator_error hp h n sp rfl

/-- A UCX output `out` of `tx` (0) set by the user, with two targets in `rx` (1), on the cycle
closed by `rx.o → tx.back`: `rx` is visited first, before `tx` has a broadcast entity, and
the direct wiring meets the fan-out. -/
def userUcxCycle : OperatorGraph Nat :=
  .ofEdges [1,0]
    (fun v => if v = 0 then ⟨"tx",.kNative,⟨[IOSpec.declare "back" IOSpec.kSizeOne],
        [{ IOSpec.declare "out" IOSpec.kSizeOne with connectorType := .kUCX }],[],[]⟩,none,none,.kDefault,[],[]⟩
      else ⟨"rx",.kNative,⟨[IOSpec.declare "in1" IOSpec.kSizeOne,IOSpec.declare "in2" IOSpec.kSizeOne],
        [IOSpec.declare "o" IOSpec.kSizeOne],[],[]⟩,none,none,.kDefault,[],[]⟩)
    [(0,1,[("out",["in1","in2"])]),(1,0,[("o",["back"])])] (by decide) (by decide) (by decide)

example : initializeFragment userUcxCycle .kDefault = .failed (ucxFanOutAbort "rx" "out") := rfl

end InitializeFragment
end HoloscanLowering
