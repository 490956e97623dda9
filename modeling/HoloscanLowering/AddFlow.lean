import HoloscanLowering.Operator

/-! `Fragment::add_flow`, with the executor's `add_receivers` and `add_control_flow`, over the
fragment's operators and its flow graph. A call logs an error and returns where the source
does; what it changed before that stays. -/
namespace HoloscanLowering
namespace AddFlow

variable {α : Type} [DecidableEq α]

/-- Modelled from the spec: the flow graph of a fragment, its operators in insertion order and
its edges, each once, with their port maps. -/
structure FlowGraph (α : Type) where
  nodes : List α
  edges : List (α × α × PortMap)
  deriving DecidableEq, Repr

namespace FlowGraph

def portMap (g : FlowGraph α) (u v : α) : Option PortMap :=
  (g.edges.find? fun e => e.1 = u ∧ e.2.1 = v).map (·.2.2)

/-- The target sets of `pm` added to those of `old`, source port by source port. -/
def mergePortMap (old pm : PortMap) : PortMap :=
  pm.foldl (fun m e => if m.any (·.1 = e.1)
    then m.map fun c => if c.1 = e.1 then (c.1,c.2++e.2.filter (· ∉ c.2)) else c
    else m++[e]) old

/-- Modelled from the spec: `FlowGraph::add_flow` adds the operators it does not hold, then
the edge; on an existing edge the target sets of each source port accumulate. -/
def addFlow (g : FlowGraph α) (u v : α) (pm : PortMap) : FlowGraph α :=
  let nodes := if u ∈ g.nodes then g.nodes else g.nodes++[u]
  let nodes := if v ∈ nodes then nodes else nodes++[v]
  if g.edges.any fun e => e.1 = u ∧ e.2.1 = v then
    ⟨nodes,g.edges.map fun e => if e.1 = u ∧ e.2.1 = v then (u,v,mergePortMap e.2.2 pm) else e⟩
  else ⟨nodes,g.edges++[(u,v,pm)]⟩

end FlowGraph

/-- The parts of a `Fragment` that `add_flow` reads and writes. -/
structure Fragment (α : Type) where
  ops : α → Operator
  graph : FlowGraph α

def indexedName (name : String) (k : Nat) : String := s!"{name}:{k}"

/-- `GXFExecutor::add_receivers`: a new input port `name:k`, `k` the length of the
`std::vector<IOSpec*>` parameter `name`, appended to that parameter. -/
def addReceivers (o : Operator) (name : String) : Operator × String :=
  let label := indexedName name (((o.spec.receivers.find? (·.1 = name)).map (·.2.length)).getD 0)
  ({ o with spec := { o.spec with
      inputs := addPort o.spec.inputs label IOSpec.kSizeOne
      receivers := o.spec.receivers.map fun r => if r.1 = name then (r.1,r.2++[label]) else r } },
    label)

/-- The upstream half of `GXFExecutor::add_control_flow`: an output execution port, with the
execution spec set to `begin()` of the outputs, their least key. -/
def addOutputExec (o : Operator) : Operator :=
  let outputs := addPort o.spec.outputs kOutputExecPortName IOSpec.kSizeOne
  { o with spec := { o.spec with outputs := outputs }, outputExecSpec := outputs.head?.map (·.name) }

/-- The downstream half: an input execution port of size `kPrecedingCount`, likewise. -/
def addInputExec (o : Operator) : Operator :=
  let inputs := addPort o.spec.inputs kInputExecPortName IOSpec.kPrecedingCount
  { o with spec := { o.spec with inputs := inputs }, inputExecSpec := inputs.head?.map (·.name) }

def addControlFlow (ops : α → Operator) (u v : α) : α → Operator :=
  let ops := if (ops u).outputExecSpec.isNone then Function.update ops u (addOutputExec (ops u)) else ops
  if (ops v).inputExecSpec.isNone then Function.update ops v (addInputExec (ops v)) else ops

def portLabels (ports : List IOSpec) : String := ", ".intercalate (ports.map (·.name))

/-- The loop over the input labels of one output label, `single` when there is one label. A
label naming a port that is not `kAnySize` stays; the empty label of the only input port
becomes its name and ends the loop; a label naming a `std::vector<IOSpec*>` parameter, directly
or through a `kAnySize` port, becomes a new indexed port. Another label is an error, and the
ports made before it stay. -/
def resolveInputLabels (single : Bool) : Operator → List String → List String →
    Operator × Except String (List String)
  | o, [], acc => (o,.ok acc)
  | o, l::ls, acc =>
    let ins := o.spec.inputs
    let isReceivers := (findPort ins l).any (·.queueSize = IOSpec.kAnySize)
    if (findPort ins l).isSome && !isReceivers then resolveInputLabels single o ls (acc++[l]) else
    let dflt := !isReceivers && ins.length == 1 && single && l == ""
    match dflt, ins with
    | true, [io] =>
      if io.queueSize ≠ IOSpec.kAnySize then (o,.ok (acc++[io.name]))
      else if o.spec.receivers.any (·.1 = io.name) then
        let r := addReceivers o io.name
        resolveInputLabels single r.1 ls (acc++[r.2])
      else
        let n := o.name
        let rx := io.name
        let labels := portLabels ins
        (o,.error s!"The downstream operator({n}) does not have an input port with label \x27{rx}\x27. It should be one of ({labels})")
    | _, _ =>
      if o.spec.receivers.any (·.1 = l) then
        let r := addReceivers o l
        resolveInputLabels single r.1 ls (acc++[r.2])
      else
        let n := o.name
        let labels := portLabels ins
        if ins.isEmpty then
          (o,.error s!"The downstream operator({n}) does not have any input port but \x27{l}\x27 was specified in the port_map")
        else
          (o,.error s!"The downstream operator({n}) does not have an input port with label \x27{l}\x27. It should be one of ({labels})")

/-- The loop over the output labels: the target set of each, resolved against the downstream
operator as the labels before it left it. -/
def resolveTargets : Operator → PortMap → Operator × Except String PortMap
  | o, [] => (o,.ok [])
  | o, (k,ts)::rest =>
    match o.spec.inputs, decide (ts.length ≠ 1) with
    | [io], true =>
      let n := o.name
      let rx := io.name
      let c := ts.length
      let labels := ", ".intercalate ts
      (o,.error s!"The downstream operator({n}) has only one port with label \x27{rx}\x27 but port_map specifies {c} labels({labels}) to the downstream operator\x27s input port")
    | _, _ =>
      match resolveInputLabels (ts.length == 1) o ts [] with
      | (o,.error e) => (o,.error e)
      | (o,.ok ts) =>
        match resolveTargets o rest with
        | (o,.error e) => (o,.error e)
        | (o,.ok rest) => (o,.ok ((k,ts)::rest))

def portMapOfPairs (pairs : List (String × String)) : PortMap :=
  pairs.foldl (fun pm e => if pm.any (·.1 = e.1)
    then pm.map fun c => if c.1 = e.1 then (c.1,if e.2 ∈ c.2 then c.2 else c.2++[e.2]) else c
    else pm++[(e.1,[e.2])]) []

/-- The checks of the output labels: one label for an operator with one output port, and each
label an output port, the empty label standing for the only one. -/
def resolveOutputLabels (up : Operator) (pm : PortMap) : Except String PortMap :=
  let outs := up.spec.outputs
  let n := up.name
  if outs.length = 1 ∧ pm.length ≠ 1 then
    let p := (outs.head?.map (·.name)).getD ""
    let c := pm.length
    let labels := ", ".intercalate (pm.map (·.1))
    .error s!"The upstream operator({n}) has only one port with label \x27{p}\x27 but port_map specifies {c} labels({labels}) to the upstream operator\x27s output port"
  else
    match pm.find? fun e => (findPort outs e.1).isNone with
    | none => .ok pm
    | some (l,_) =>
      match outs, pm with
      | [io], [(_,ts)] => if l = "" then .ok [(io.name,ts)] else
        let labels := portLabels outs
        .error s!"The upstream operator({n}) does not have an output port with label \x27{l}\x27. It should be one of ({labels})"
      | [], _ =>
        .error s!"The upstream operator({n}) does not have any output port but \x27{l}\x27 was specified in port_map"
      | _, _ =>
        let labels := portLabels outs
        .error s!"The upstream operator({n}) does not have an output port with label \x27{l}\x27. It should be one of ({labels})"

/-- The part of `add_flow` after the port pairs are known. -/
def dataFlow (F : Fragment α) (u v : α) (pairs : List (String × String)) : Fragment α × Option String :=
  match resolveOutputLabels (F.ops u) (portMapOfPairs pairs) with
  | .error e => (F,some e)
  | .ok pm =>
    match resolveTargets (F.ops v) pm with
    | (o,.error e) => ({ F with ops := Function.update F.ops v o },some e)
    | (o,.ok pm) => (⟨Function.update F.ops v o,F.graph.addFlow u v pm⟩,none)

def typeName (t : OperatorType) : String := if t = .kNative then "Native" else "GXF"

/-- `Fragment::add_flow(upstream_op, downstream_op, port_pairs)`: the fragment it leaves and
the error it logged, if any. Empty port pairs make a control-flow edge towards an operator
without inputs or with an input execution port, and otherwise map the only output port to
the only input port. -/
def addFlow (F : Fragment α) (u v : α) (pairs : List (String × String)) : Fragment α × Option String :=
  let up := F.ops u
  let down := F.ops v
  if pairs.isEmpty then
    if down.spec.inputs.isEmpty || down.inputExecSpec.isSome then
      if up.operatorType ≠ .kNative ∨ down.operatorType ≠ .kNative then
        let a := up.name
        let ta := typeName up.operatorType
        let b := down.name
        let tb := typeName down.operatorType
        (F,some s!"Both upstream (\x27{a}\x27, type: {ta}) and downstream (\x27{b}\x27, type: {tb}) operators should be native operators to connect execution ports. Please check the operator types. Ignoring the control flow addition.")
      else (⟨addControlFlow F.ops u v,F.graph.addFlow u v controlFlowPortMap⟩,none)
    else if 1 < up.spec.outputs.length then
      let labels := portLabels up.spec.outputs
      (F,some s!"The upstream operator has more than one output port ({labels}) so mapping should be specified explicitly!")
    else if 1 < down.spec.inputs.length then
      let labels := portLabels down.spec.inputs
      (F,some s!"The downstream operator has more than one input port ({labels}) so mapping should be specified explicitly!")
    else dataFlow F u v [("","")]
  else dataFlow F u v pairs

def addFlows (F : Fragment α) : List (α × α × List (String × String)) → Fragment α
  | [] => F
  | (u,v,pairs)::calls => addFlows (addFlow F u v pairs).1 calls

/-! ### Edges name declared ports -/

def InputValid (o : Operator) (q : String) : Prop :=
  ∃ io, findPort o.spec.inputs q = some io ∧ io.queueSize ≠ IOSpec.kAnySize

def PortMapValid (up down : Operator) (pm : PortMap) : Prop :=
  ∀ e ∈ pm, (findPort up.spec.outputs e.1).isSome ∧ ∀ q ∈ e.2, InputValid down q

/-- `o'` has every port of `o` as `find` sees it. -/
structure Grows (o o' : Operator) : Prop where
  inputs : ∀ q io, findPort o.spec.inputs q = some io → findPort o'.spec.inputs q = some io
  outputs : ∀ p io, findPort o.spec.outputs p = some io → findPort o'.spec.outputs p = some io

theorem Grows.refl (o : Operator) : Grows o o := ⟨fun _ _ => id,fun _ _ => id⟩

theorem Grows.trans {o₁ o₂ o₃ : Operator} (h₁ : Grows o₁ o₂) (h₂ : Grows o₂ o₃) : Grows o₁ o₃ :=
  ⟨fun q io h => h₂.inputs q io (h₁.inputs q io h),fun p io h => h₂.outputs p io (h₁.outputs p io h)⟩

theorem InputValid.mono {o o' : Operator} {q : String} (h : InputValid o q) (hg : Grows o o') :
    InputValid o' q :=
  let ⟨io,hf,hs⟩ := h
  ⟨io,hg.inputs q io hf,hs⟩

theorem PortMapValid.mono {up down up' down' : Operator} {pm : PortMap}
    (h : PortMapValid up down pm) (hu : Grows up up') (hd : Grows down down') :
    PortMapValid up' down' pm := fun e he =>
  let ⟨ho,hi⟩ := h e he
  ⟨by
    obtain ⟨io,hio⟩ := Option.isSome_iff_exists.mp ho
    simp [hu.outputs _ io hio],fun q hq => (hi q hq).mono hd⟩

theorem FlowGraph.addFlow_edges (g : FlowGraph α) (u v : α) (pm : PortMap) :
    (g.addFlow u v pm).edges = if g.edges.any (fun e => e.1 = u ∧ e.2.1 = v)
      then g.edges.map (fun e => if e.1 = u ∧ e.2.1 = v then (u,v,mergePortMap e.2.2 pm) else e)
      else g.edges++[(u,v,pm)] := by
  unfold FlowGraph.addFlow
  split_ifs <;> rfl

theorem FlowGraph.mem_addFlow {g : FlowGraph α} {u v : α} {pm : PortMap} {e : α × α × PortMap}
    (h : e ∈ (g.addFlow u v pm).edges) :
    e ∈ g.edges ∨ e = (u,v,pm) ∨ ∃ old, (u,v,old) ∈ g.edges ∧ e = (u,v,FlowGraph.mergePortMap old pm) := by
  rw [FlowGraph.addFlow_edges] at h
  split_ifs at h
  · obtain ⟨⟨a,b,c⟩,h₀,rfl⟩ := List.mem_map.mp h
    split_ifs with hab
    · obtain ⟨rfl,rfl⟩ := hab
      exact .inr (.inr ⟨c,h₀,rfl⟩)
    · exact .inl h₀
  · rcases List.mem_append.mp h with h | h
    · exact .inl h
    · exact .inr (.inl (List.mem_singleton.mp h))

def receiversFragment : Fragment Nat :=
  ⟨fun v => if v = 0 then ⟨"tx",.kNative,⟨[],[IOSpec.declare "out" IOSpec.kSizeOne],[],[]⟩,none,none,.kDefault,[],[]⟩
    else ⟨"rx",.kNative,⟨[],[],[("receivers",[])],[]⟩,none,none,.kDefault,[],[]⟩,⟨[],[]⟩⟩

theorem dataFlow_rejected {F : Fragment α} {u v : α} {pairs : List (String × String)}
    (h : (dataFlow F u v pairs).2.isSome) :
    (dataFlow F u v pairs).1.graph = F.graph ∧ ∀ x ≠ v, (dataFlow F u v pairs).1.ops x = F.ops x := by
  unfold dataFlow at h ⊢
  generalize resolveOutputLabels (F.ops u) (portMapOfPairs pairs) = r₁ at h ⊢
  rcases r₁ with e | pm
  · exact ⟨rfl,fun _ _ => rfl⟩
  dsimp only at h ⊢
  generalize resolveTargets (F.ops v) pm = r₂ at h ⊢
  rcases r₂ with ⟨o,e | pm'⟩
  · exact ⟨rfl,fun x hx => Function.update_noteq hx _ _⟩
  · cases h

/-- A rejected call adds no edge and changes no operator but the downstream one. -/
theorem addFlow_rejected {F : Fragment α} {u v : α} {pairs : List (String × String)}
    (h : (addFlow F u v pairs).2.isSome) :
    (addFlow F u v pairs).1.graph = F.graph ∧ ∀ x ≠ v, (addFlow F u v pairs).1.ops x = F.ops x := by
  unfold addFlow at h ⊢
  dsimp only at h ⊢
  split_ifs at h ⊢
  all_goals first | exact ⟨rfl,fun _ _ => rfl⟩ | exact dataFlow_rejected h | cases h

theorem receiversFragment_rejection_keeps_graph :
    (addFlow receiversFragment 0 1 [("out","receivers"),("out","zzz")]).2.isSome ∧
      (addFlow receiversFragment 0 1 [("out","receivers"),("out","zzz")]).1.graph = receiversFragment.graph ∧
      ∀ x ≠ 1, (addFlow receiversFragment 0 1 [("out","receivers"),("out","zzz")]).1.ops x = receiversFragment.ops x :=
  ⟨by decide,addFlow_rejected (by decide)⟩

/-- `add_flow` rejects the second label `zzz` after the first, `receivers`, has already made
the port `receivers:0` and added it to the parameter: no edge, but the port stays. -/
theorem receiversFragment_rejected_flow_keeps_port :
    (addFlow receiversFragment 0 1 [("out","receivers"),("out","zzz")]).2.isSome ∧
      (addFlow receiversFragment 0 1 [("out","receivers"),("out","zzz")]).1.graph = receiversFragment.graph ∧
      (receiversFragment.ops 1).spec.inputs = [] ∧
      ((addFlow receiversFragment 0 1 [("out","receivers"),("out","zzz")]).1.ops 1).spec.inputs.map (·.name) =
        ["receivers:0"] ∧
      ((addFlow receiversFragment 0 1 [("out","receivers"),("out","zzz")]).1.ops 1).spec.receivers =
        [("receivers",["receivers:0"])] := by
  decide

/-! ### Two calls from one upstream operator -/

theorem addOutputExec_outputExecSpec {o : Operator} (hs : o.spec.outputs.Sorted (fun a b => keyLt a.name b.name)) :
    (addOutputExec o).outputExecSpec = some kOutputExecPortName ↔
      ∀ io ∈ o.spec.outputs.head?, ¬ keyLt io.name kOutputExecPortName := by
  unfold addOutputExec addPort
  cases hl : o.spec.outputs with
  | nil => simp [IOSpec.declare]
  | cons b l =>
    rw [hl] at hs
    have hb := List.rel_of_sorted_cons hs
    by_cases hbe : b.name = kOutputExecPortName
    · simp [hbe,keyLt]
    · split_ifs with hany
      · obtain ⟨io,hio,he⟩ : ∃ io ∈ l, io.name = kOutputExecPortName := by simpa [hbe] using hany
        simp [hbe,he ▸ hb io hio]
      · by_cases hlt : keyLt b.name kOutputExecPortName <;> simp [List.orderedInsert,hlt,hbe,IOSpec.declare]

def upperOutFragment : Fragment Nat :=
  ⟨fun v => if v = 0 then ⟨"src",.kNative,⟨[],[IOSpec.declare "Out" IOSpec.kSizeOne],[],[]⟩,none,none,.kDefault,[],[]⟩
    else ⟨"trigger",.kNative,⟨[],[],[],[]⟩,none,none,.kDefault,[],[]⟩,⟨[],[]⟩⟩

/-- The control flow from `src` to `trigger`: `src` gets `__output_exec__` after `Out`, and its
output execution spec is the data port `Out`; `trigger` records `__input_exec__`. -/
theorem upperOut_exec_spec_is_data_port :
    ((addFlow upperOutFragment 0 1 []).1.ops 0).spec.outputs.map (·.name) = ["Out",kOutputExecPortName] ∧
      ((addFlow upperOutFragment 0 1 []).1.ops 0).outputExecSpec = some "Out" ∧
      ((addFlow upperOutFragment 0 1 []).1.ops 1).inputExecSpec = some kInputExecPortName := by
  decide

end AddFlow
end HoloscanLowering
