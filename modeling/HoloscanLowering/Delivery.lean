import HoloscanLowering.InitializeFragment

/-! The connections `initialize_fragment` wires for the logical edges of the graph. Each entry
`sp ↦ ts` of the port map of an edge `u → v` asks for a path from output `sp` of `u` into every
input of `ts` of `v`: a direct `add_connection`, made when the later of the two operators is
visited, or a transmitter of `u`'s broadcast entity of `sp`. The wiring only appends to the
plan's lists, erases port map entries only on edges between visited operators, and creates a
broadcast entity only for the operator it visits. -/
namespace HoloscanLowering
namespace Delivery

open InitializeOperator Worklist InitializeFragment

variable {α : Type} [DecidableEq α]

/-! ### What a wiring step changes -/

/-- `p'` extends `p`: connections, transmitters and broadcast entities only appended to. -/
structure Extends (p p' : Plan α) : Prop where
  connections : p.connections <+: p'.connections
  transmitters : p.transmitters <+: p'.transmitters
  broadcasts : p.broadcasts <+: p'.broadcasts

omit [DecidableEq α] in
theorem Extends.refl (p : Plan α) : Extends p p :=
  ⟨List.prefix_refl _,List.prefix_refl _,List.prefix_refl _⟩

omit [DecidableEq α] in
theorem Extends.trans {p q r : Plan α} (h₁ : Extends p q) (h₂ : Extends q r) : Extends p r :=
  ⟨h₁.connections.trans h₂.connections,h₁.transmitters.trans h₂.transmitters,
    h₁.broadcasts.trans h₂.broadcasts⟩

/-- A wiring step: connections and transmitters only appended to, the broadcast entities kept,
and the edge data changed only on the edges `E` holds of. -/
structure Wires (E : α → α → Prop) (p p' : Plan α) : Prop where
  connections : p.connections <+: p'.connections
  transmitters : p.transmitters <+: p'.transmitters
  broadcasts : p'.broadcasts = p.broadcasts
  portMaps : ∀ a b, ¬E a b → p'.portMaps a b = p.portMaps a b

omit [DecidableEq α] in
theorem Wires.refl (E : α → α → Prop) (p : Plan α) : Wires E p p :=
  ⟨List.prefix_refl _,List.prefix_refl _,rfl,fun _ _ _ => rfl⟩

omit [DecidableEq α] in
theorem Wires.trans {E : α → α → Prop} {p q r : Plan α} (h₁ : Wires E p q) (h₂ : Wires E q r) :
    Wires E p r :=
  ⟨h₁.connections.trans h₂.connections,h₁.transmitters.trans h₂.transmitters,
    h₂.broadcasts.trans h₁.broadcasts,fun a b h => (h₂.portMaps a b h).trans (h₁.portMaps a b h)⟩

omit [DecidableEq α] in
theorem Wires.mono {E E' : α → α → Prop} {p p' : Plan α} (h : Wires E p p')
    (hE : ∀ a b, E a b → E' a b) : Wires E' p p' :=
  ⟨h.connections,h.transmitters,h.broadcasts,fun a b hab => h.portMaps a b (mt (hE a b) hab)⟩

omit [DecidableEq α] in
theorem Wires.toExtends {E : α → α → Prop} {p p' : Plan α} (h : Wires E p p') : Extends p p' :=
  ⟨h.connections,h.transmitters,h.broadcasts ▸ List.prefix_refl _⟩

omit [DecidableEq α] in
theorem wires_foldlM {E : α → α → Prop} {γ : Type} {f : Plan α → γ → Except Abort (Plan α)}
    {l : List γ} {p p' : Plan α} (hf : ∀ b x b', x ∈ l → f b x = .ok b' → Wires E b b')
    (h : l.foldlM f p = .ok p') : Wires E p p' :=
  foldlM_ok_induction (Wires E p) (fun _ x _ hx hb h => hb.trans (hf _ x _ hx h)) (.refl E p) h

omit [DecidableEq α] in
theorem addBroadcastTx_wires {E : α → α → Prop} {op prev : α} {port t : String} {p p' : Plan α}
    (h : addBroadcastTx op prev port t p = .ok p') : Wires E p p' := by
  unfold addBroadcastTx at h
  obtain ⟨io,-,h⟩ := (bind_eq_ok _ _ _).mp h
  dsimp only at h
  split at h
  · obtain ⟨_,-,h⟩ := (bind_eq_ok _ _ _).mp h
    cases (pure_eq_ok _ _).mp h
    exact ⟨by simp,by simp,rfl,fun _ _ _ => rfl⟩
  all_goals cases (pure_eq_ok _ _).mp h; exact ⟨by simp,by simp,rfl,fun _ _ _ => rfl⟩

theorem connectBroadcastToPreviousOp_wires {op prev : α} {p p' : Plan α}
    (h : connectBroadcastToPreviousOp op prev p = .ok p') : Wires (fun a b => a = prev ∧ b = op) p p' := by
  refine wires_foldlM (fun b x b' _ hb => ?_) h
  dsimp only at hb
  split at hb
  · obtain ⟨b₁,h₁,hb⟩ := (bind_eq_ok _ _ _).mp hb
    cases (pure_eq_ok _ _).mp hb
    have w₁ : Wires (fun _ _ => False) b b₁ := wires_foldlM (fun _ _ _ _ h => addBroadcastTx_wires h) h₁
    refine ⟨w₁.connections,w₁.transmitters,w₁.broadcasts,fun a c hac => ?_⟩
    simp only [setPortMap,if_neg hac]
    exact w₁.portMaps a c id
  · cases (pure_eq_ok _ _).mp hb
    exact .refl _ _

theorem connectDirect_wires {E : α → α → Prop} {op prev : α} {visited : List α} {pm : PortMap}
    {p p' : Plan α} (h : connectDirect op prev visited pm p = .ok p') : Wires E p p' := by
  refine wires_foldlM (fun b ⟨sp,ts⟩ b' _ hb => ?_) h
  dsimp only at hb
  obtain ⟨io,-,hb⟩ := (bind_eq_ok _ _ _).mp hb
  split at hb
  · refine wires_foldlM (fun c t c' _ hc => ?_) hb
    obtain ⟨_,-,hc⟩ := (bind_eq_ok _ _ _).mp hc
    cases (pure_eq_ok _ _).mp hc
    split
    · exact ⟨by simp,by simp,rfl,fun _ _ _ => rfl⟩
    · exact .refl _ _
  split at hb
  · cases hb
  · cases (pure_eq_ok _ _).mp hb
    exact .refl _ _

theorem connectPrevious_wires {op : α} {visited : List α} {p p' : Plan α} {prev : α}
    (h : connectPrevious op visited p prev = .ok p') :
    Wires (fun a b => a = prev ∧ b = op ∧ prev ≠ op ∧ p.broadcasts.any (·.op = prev)) p p' := by
  unfold connectPrevious at h
  split at h
  · cases (pure_eq_ok _ _).mp h
    exact .refl _ _
  rename_i hne
  split at h
  · cases h
  obtain ⟨p₁,h₁,h⟩ := (bind_eq_ok _ _ _).mp h
  have w₁ : Wires (fun a b => a = prev ∧ b = op ∧ prev ≠ op ∧ p.broadcasts.any (·.op = prev)) p p₁ := by
    split at h₁
    · rename_i hb
      exact (connectBroadcastToPreviousOp_wires h₁).mono fun a b ⟨ha,hb'⟩ => ⟨ha,hb',hne,hb⟩
    · cases (pure_eq_ok _ _).mp h₁
      exact .refl _ _
  dsimp only at h
  split at h
  · cases (pure_eq_ok _ _).mp h
    exact w₁
  · exact w₁.trans (connectDirect_wires h)

theorem connectDeferred_wires {E : α → α → Prop} {op : α} {visited : List α}
    {conns : List (Targets α)} {p p' : Plan α} (h : connectDeferred op visited conns p = .ok p') :
    Wires E p p' := by
  refine wires_foldlM (fun b ⟨sp,ty,tgts⟩ b' _ hb => ?_) h
  dsimp only at hb
  split at hb
  · cases (pure_eq_ok _ _).mp hb
    exact .refl _ _
  refine wires_foldlM (fun c ⟨n,t⟩ c' _ hc => ?_) hb
  dsimp only at hc
  split at hc
  · obtain ⟨_,-,hc⟩ := (bind_eq_ok _ _ _).mp hc
    cases (pure_eq_ok _ _).mp hc
    exact ⟨by simp,by simp,rfl,fun _ _ _ => rfl⟩
  · cases (pure_eq_ok _ _).mp hc
    exact .refl _ _

theorem connectInitializedNext_wires {op : α} {visited : List α} {p p' : Plan α} {nexts : List α}
    (h : connectInitializedNext op visited p nexts = .ok p') : Wires (fun a b => a = op ∧ b ∈ visited) p p' := by
  refine wires_foldlM (fun b n b' _ hb => ?_) h
  split at hb
  · rename_i hn
    split at hb
    · cases hb
    split at hb
    · refine (connectBroadcastToPreviousOp_wires hb).mono fun a c ⟨ha,hc⟩ => ⟨ha,?_⟩
      subst hc
      simp only [isInitialized,Bool.and_eq_true,decide_eq_true_eq] at hn
      exact hn.1
    · cases (pure_eq_ok _ _).mp hb
      exact .refl _ _
  · cases (pure_eq_ok _ _).mp hb
    exact .refl _ _

omit [DecidableEq α] in
theorem createBroadcastComponents_extends {op : α} {conns : List (Targets α)} {p p' : Plan α}
    (h : createBroadcastComponents op conns p = .ok p') : Extends p p' := by
  refine foldlM_ok_induction (Extends p) (fun b ⟨sp,ty,tgts⟩ b' _ hb hs => hb.trans ?_) (.refl p) h
  dsimp only at hs
  split at hs
  · cases (pure_eq_ok _ _).mp hs
    exact .refl _
  · obtain ⟨_,-,hs⟩ := (bind_eq_ok _ _ _).mp hs
    cases (pure_eq_ok _ _).mp hs
    exact ⟨by simp,by simp,by simp⟩

omit [DecidableEq α] in
theorem createBroadcastComponents_broadcasts {op : α} {conns : List (Targets α)} {p p' : Plan α}
    (h : createBroadcastComponents op conns p = .ok p') :
    p'.portMaps = p.portMaps ∧ ∀ b ∈ p'.broadcasts, b ∈ p.broadcasts ∨ b.op = op := by
  refine foldlM_ok_induction (fun c : Plan α => c.portMaps = p.portMaps ∧
    ∀ b ∈ c.broadcasts, b ∈ p.broadcasts ∨ b.op = op) (fun c ⟨sp,ty,tgts⟩ c' _ hc hs => ?_)
    ⟨rfl,fun b hb => .inl hb⟩ h
  dsimp only at hs
  split at hs
  · cases (pure_eq_ok _ _).mp hs
    exact hc
  · obtain ⟨_,-,hs⟩ := (bind_eq_ok _ _ _).mp hs
    cases (pure_eq_ok _ _).mp hs
    refine ⟨hc.1,fun b hb => ?_⟩
    rcases List.mem_append.mp hb with hb | hb
    · exact hc.2 b hb
    · exact .inr (by simp_all)

/-! ### Paths into an input -/

/-- A path from output `sp` of `u` into input `q` of `v`: a direct connection, or a connection
into `q` from a transmitter of `u`'s broadcast entity of `sp`. -/
def Delivered (p : Plan α) (u : α) (sp : String) (v : α) (q : String) : Prop :=
  (Endpoint.tx u sp,Endpoint.rx v q) ∈ p.connections ∨
    ∃ i b, (Endpoint.btx i,Endpoint.rx v q) ∈ p.connections ∧ p.transmitters.get? i = some b ∧
      b.source = u ∧ b.port = sp

omit [DecidableEq α] in
theorem Delivered.mono {p p' : Plan α} {u v : α} {sp q : String} (h : Delivered p u sp v q)
    (he : Extends p p') : Delivered p' u sp v q := by
  rcases h with h | ⟨i,b,hc,hb,hs,hp⟩
  · exact .inl (he.connections.subset h)
  · obtain ⟨t,ht⟩ := he.transmitters
    refine .inr ⟨i,b,he.connections.subset hc,?_,hs,hp⟩
    rw [List.get?_eq_getElem?] at hb ⊢
    rw [← ht,List.getElem?_append_left (List.getElem?_eq_some_iff.mp hb).1,hb]

theorem Delivered.paths_pos {p : Plan α} {u v : α} {sp q : String} (h : Delivered p u sp v q) :
    1 ≤ directPaths p u sp v q + broadcastPaths p u sp v q := by
  rcases h with h | ⟨i,b,hc,hb,rfl,rfl⟩
  · have : 0 < directPaths p u sp v q := List.count_pos_iff.mpr h
    omega
  · have : 0 < broadcastPaths p b.source b.port v q :=
      List.length_pos_of_mem (List.mem_filter.mpr ⟨hc,by rw [List.get?_eq_getElem?] at hb; simp [hb]⟩)
    omega

theorem isInitialized_of_ops {p p' : Plan α} (h : p'.ops = p.ops) (visited : List α) (x : α) :
    isInitialized p' visited x = isInitialized p visited x := by
  simp only [isInitialized,h]

omit [DecidableEq α] in
theorem addBroadcastTx_delivers {op prev : α} {port t : String} {p p' : Plan α}
    (h : addBroadcastTx op prev port t p = .ok p') (hop : (p.ops op).operatorType ≠ .kVirtual)
    (hucx : ¬isUcxOutput (p.ops prev) port) : Delivered p' prev port op t := by
  unfold addBroadcastTx at h
  obtain ⟨io,hio,h⟩ := (bind_eq_ok _ _ _).mp h
  have hty : io.connectorType ≠ .kUCX := fun hu => hucx (isUcxOutput_of_outputSpec hio hu)
  dsimp only at h
  split at h
  · obtain ⟨_,-,h⟩ := (bind_eq_ok _ _ _).mp h
    cases (pure_eq_ok _ _).mp h
    exact .inr ⟨_,_,List.mem_append_right _ (List.mem_singleton_self _),
      (List.get?_eq_getElem? _ _).trans (List.getElem?_concat_length _ _),rfl,rfl⟩
  all_goals
    rename_i hk
    split_ifs at hk
    first
      | cases hk
      | exact absurd ‹(p.ops op).operatorType = .kVirtual› hop
      | exact absurd hk hty
      | exact absurd hk ‹¬io.connectorType = .kDefault›

theorem connectBroadcastToPreviousOp_delivers {op prev : α} {p p' : Plan α} {sp q : String}
    {ts : List String} (h : connectBroadcastToPreviousOp op prev p = .ok p')
    (hkeys : (((p.portMaps prev op).getD []).map (·.1)).Nodup)
    (he : (sp,ts) ∈ (p.portMaps prev op).getD []) (hq : q ∈ ts)
    (hop : (p.ops op).operatorType ≠ .kVirtual) (hucx : ¬isUcxOutput (p.ops prev) sp) :
    Delivered p' prev sp op q ∨ ((((p'.portMaps prev op).getD []).map (·.1)).Nodup ∧
      (sp,ts) ∈ (p'.portMaps prev op).getD []) := by
  refine (foldlM_ok_induction (fun c : Plan α => c.ops = p.ops ∧ (Delivered c prev sp op q ∨
      ((((c.portMaps prev op).getD []).map (·.1)).Nodup ∧ (sp,ts) ∈ (c.portMaps prev op).getD [])))
    (fun c b c' _ ⟨hops,hc⟩ hs => ?_) ⟨rfl,.inr ⟨hkeys,he⟩⟩ h).2
  dsimp only at hs
  split at hs
  · obtain ⟨c₁,h₁,hs⟩ := (bind_eq_ok _ _ _).mp hs
    cases (pure_eq_ok _ _).mp hs
    have hops₁ : c₁.ops = p.ops :=
      ((keeps_foldlM (T := fun _ => False) (fun _ _ _ _ h => addBroadcastTx_keeps h) h₁).keepsOps.1).trans hops
    have e₁ : Extends c c₁ :=
      (wires_foldlM (E := fun _ _ => False) (fun _ _ _ _ h => addBroadcastTx_wires h) h₁).toExtends
    refine ⟨hops₁,?_⟩
    rcases hc with hc | ⟨hk,hm⟩
    · exact .inl (hc.mono ⟨e₁.1,e₁.2,e₁.3⟩)
    by_cases hb : b.port = sp
    · subst hb
      rw [PortMap.targets_of_mem hk hm] at h₁
      have hd : Delivered c₁ prev b.port op q := foldlM_ok_of_mem (fun d : Plan α => d.ops = p.ops)
        (fun d => Delivered d prev b.port op q) (f := fun p t => addBroadcastTx op prev b.port t p) hq
        (fun d _ d' _ hd hs => ⟨(addBroadcastTx_keeps (T := fun _ => False) hs).keepsOps.1.trans hd,
          (·.mono (addBroadcastTx_wires (E := fun _ _ => False) hs).toExtends)⟩)
        (fun d d' hd hs => addBroadcastTx_delivers hs (by rwa [hd]) (by rwa [hd])) hops h₁
      exact .inl hd
    · simp only [setPortMap,and_self,if_true,Option.getD_some]
      exact .inr ⟨PortMap.erase_keys_nodup _ hk,PortMap.mem_erase.mpr ⟨hm,Ne.symm hb⟩⟩
  · cases (pure_eq_ok _ _).mp hs
    exact ⟨hops,hc⟩

theorem connectDirect_delivers {op prev : α} {visited : List α} {pm : PortMap} {p p' : Plan α}
    {sp q : String} {ts : List String} (h : connectDirect op prev visited pm p = .ok p')
    (he : (sp,ts) ∈ pm) (hq : q ∈ ts) (hucx : ¬isUcxOutput (p.ops prev) sp)
    (hinit : isInitialized p visited prev) : (Endpoint.tx prev sp,Endpoint.rx op q) ∈ p'.connections := by
  obtain ⟨l₁,l₂,c,c',rfl,h₁,hs,h₂⟩ := foldlM_ok_split he h
  have hops : c.ops = p.ops := (connectDirect_keeps (T := fun _ => False) h₁).keepsOps.1
  refine (connectDirect_wires (E := fun _ _ => False) h₂).connections.subset ?_
  dsimp only at hs
  obtain ⟨io,hio,hs⟩ := (bind_eq_ok _ _ _).mp hs
  rw [hops] at hio
  rw [if_pos fun hu => hucx (isUcxOutput_of_outputSpec hio hu)] at hs
  refine foldlM_ok_of_mem (fun d : Plan α => d.ops = p.ops)
    (fun d => (Endpoint.tx prev sp,Endpoint.rx op q) ∈ d.connections) hq ?_ ?_ hops hs
  · intro d t d' _ hd hs
    obtain ⟨_,-,hs⟩ := (bind_eq_ok _ _ _).mp hs
    cases (pure_eq_ok _ _).mp hs
    split
    · exact ⟨hd,List.mem_append_left _⟩
    · exact ⟨hd,id⟩
  · intro d d' hd hs
    obtain ⟨_,-,hs⟩ := (bind_eq_ok _ _ _).mp hs
    cases (pure_eq_ok _ _).mp hs
    rw [if_pos (by rwa [isInitialized_of_ops hd])]
    simp

/-- A pass of the predecessor loop from an initialized `prev ≠ op` delivers every entry of
`prev → op` whose source port is not UCX: through the broadcast entity of its port, or
directly. -/
theorem connectPrevious_delivers {op : α} {visited : List α} {p p' : Plan α} {prev : α}
    {sp q : String} {ts : List String} (h : connectPrevious op visited p prev = .ok p')
    (hne : prev ≠ op) (hkeys : (((p.portMaps prev op).getD []).map (·.1)).Nodup)
    (he : (sp,ts) ∈ (p.portMaps prev op).getD []) (hq : q ∈ ts) (hinit : isInitialized p visited prev)
    (hop : (p.ops op).operatorType ≠ .kVirtual) (hucx : ¬isUcxOutput (p.ops prev) sp) :
    Delivered p' prev sp op q := by
  unfold connectPrevious at h
  rw [if_neg hne] at h
  split at h
  · cases h
  obtain ⟨p₁,h₁,h⟩ := (bind_eq_ok _ _ _).mp h
  have hops : p₁.ops = p.ops := (broadcastFromPrevious_keeps h₁).keepsOps.1
  have hd : Delivered p₁ prev sp op q ∨ ((((p₁.portMaps prev op).getD []).map (·.1)).Nodup ∧
      (sp,ts) ∈ (p₁.portMaps prev op).getD []) := by
    split at h₁
    · exact connectBroadcastToPreviousOp_delivers h₁ hkeys he hq hop hucx
    · cases (pure_eq_ok _ _).mp h₁
      exact .inr ⟨hkeys,he⟩
  dsimp only at h
  split at h
  · rename_i hskip
    cases (pure_eq_ok _ _).mp h
    refine hd.resolve_right fun ⟨_,hm⟩ => ?_
    have hprev : (p.ops prev).operatorType ≠ .kVirtual := by
      simpa [isInitialized] using (Bool.and_eq_true _ _).mp hinit |>.2
    simp only [Bool.or_eq_true,decide_eq_true_eq,hops,List.isEmpty_iff] at hskip
    rcases hskip with (hskip | hskip) | hskip
    · rw [hskip] at hm; cases hm
    · exact hprev hskip
    · exact hop hskip
  · rcases hd with hd | ⟨-,hm⟩
    · exact hd.mono (connectDirect_wires (E := fun _ _ => False) h).toExtends
    · exact .inl (connectDirect_delivers h hm hq (hops ▸ hucx) (by rwa [isInitialized_of_ops hops]))

/-! ### The `connections` map of a visited operator -/

/-- The `connections` map sends output `sp` to `x` over a connector other than UCX. -/
def Reaches (conns : List (Targets α)) (sp : String) (x : α × String) : Prop :=
  ∃ c ∈ conns, c.1 = sp ∧ c.2.1 ≠ .kUCX ∧ x ∈ c.2.2

def KeyNotUcx (conns : List (Targets α)) (sp : String) : Prop :=
  ∀ c ∈ conns, c.1 = sp → c.2.1 ≠ .kUCX

omit [DecidableEq α] in
theorem foldl_of_mem {β γ : Type} (P Q : β → Prop) {f : β → γ → β} {l : List γ} {x : γ}
    (hx : x ∈ l) (hP : ∀ b y, P b → P (f b y)) (hQ : ∀ b y, Q b → Q (f b y))
    (hfx : ∀ b, P b → Q (f b x)) {b : β} (hb : P b) : Q (l.foldl f b) := by
  obtain ⟨l₁,l₂,rfl⟩ := List.append_of_mem hx
  rw [List.foldl_append,List.foldl_cons]
  exact List.foldlRecOn (motive := Q) l₂ f _
    (hfx _ (List.foldlRecOn (motive := P) l₁ f b hb fun b hb y _ => hP b y hb)) fun b hb y _ => hQ b y hb

theorem mem_addTarget {conns : List (Targets α)} {sp : String} {ty : ConnectorType} {n : α}
    {t : String} {c' : Targets α} (h : c' ∈ addTarget conns sp ty n t) :
    (∃ c ∈ conns, c'.1 = c.1 ∧ c'.2.1 = c.2.1) ∨ c' = (sp,ty,[(n,t)]) := by
  unfold addTarget at h
  split_ifs at h
  · obtain ⟨c,hc,rfl⟩ := List.mem_map.mp h
    exact .inl ⟨c,hc,by split_ifs <;> rfl,by split_ifs <;> rfl⟩
  · rcases List.mem_append.mp h with h | h
    · exact .inl ⟨c',h,rfl,rfl⟩
    · exact .inr (List.mem_singleton.mp h)

theorem addTarget_of_mem (sp : String) (ty : ConnectorType) (n : α) (t : String)
    {conns : List (Targets α)} {c : Targets α} (hc : c ∈ conns) :
    ∃ c' ∈ addTarget conns sp ty n t, c'.1 = c.1 ∧ c'.2.1 = c.2.1 ∧ c.2.2 ⊆ c'.2.2 ∧
      (c.1 = sp → (n,t) ∈ c'.2.2) := by
  unfold addTarget
  split_ifs with hany
  · refine ⟨_,List.mem_map_of_mem _ hc,?_⟩
    by_cases h : c.1 = sp <;> by_cases hm : (n,t) ∈ c.2.2 <;> simp [h,hm]
  · refine ⟨c,List.mem_append_left _ hc,rfl,rfl,List.Subset.refl _,fun h => ?_⟩
    exact absurd (List.any_eq_true.mpr ⟨c,hc,by simp [h]⟩) hany

theorem KeyNotUcx.addTarget {conns : List (Targets α)} {sp sp' : String} {ty : ConnectorType}
    {n : α} {t : String} (h : KeyNotUcx conns sp) (hty : sp' = sp → ty ≠ .kUCX) :
    KeyNotUcx (addTarget conns sp' ty n t) sp := by
  intro c' hc' hsp
  rcases mem_addTarget hc' with ⟨c,hc,h₁,h₂⟩ | rfl
  · rw [h₂]
    exact h c hc (h₁ ▸ hsp)
  · exact hty hsp

theorem Reaches.addTarget {conns : List (Targets α)} {sp sp' : String} {ty : ConnectorType}
    {n : α} {t : String} {x : α × String} (h : Reaches conns sp x) :
    Reaches (addTarget conns sp' ty n t) sp x := by
  obtain ⟨c,hc,hsp,hty,hx⟩ := h
  obtain ⟨c',hc',h₁,h₂,hsub,-⟩ := addTarget_of_mem sp' ty n t hc
  exact ⟨c',hc',h₁.trans hsp,h₂ ▸ hty,hsub hx⟩

theorem reaches_addTarget {conns : List (Targets α)} {sp : String} {ty : ConnectorType} {n : α}
    {t : String} (h : KeyNotUcx conns sp) (hty : ty ≠ .kUCX) :
    Reaches (addTarget conns sp ty n t) sp (n,t) := by
  by_cases hany : ∃ c ∈ conns, c.1 = sp
  · obtain ⟨c,hc,hsp⟩ := hany
    obtain ⟨c',hc',h₁,h₂,-,hnt⟩ := addTarget_of_mem sp ty n t hc
    exact ⟨c',hc',h₁.trans hsp,h₂ ▸ h c hc hsp,hnt hsp⟩
  · refine ⟨(sp,ty,[(n,t)]),?_,rfl,hty,List.mem_singleton_self _⟩
    unfold addTarget
    rw [if_neg (by simpa using hany)]
    simp

theorem foldl_addTarget {conns : List (Targets α)} {sp sp' : String} {ty : ConnectorType} {n : α}
    {x : α × String} (ts : List String) (hty : sp' = sp → ty ≠ .kUCX) (hk : KeyNotUcx conns sp) :
    KeyNotUcx (ts.foldl (fun cs t => addTarget cs sp' ty n t) conns) sp ∧
      (Reaches conns sp x → Reaches (ts.foldl (fun cs t => addTarget cs sp' ty n t) conns) sp x) :=
  ⟨List.foldlRecOn (motive := fun cs => KeyNotUcx cs sp) ts _ conns hk fun _ hk _ _ => hk.addTarget hty,
    fun hr => List.foldlRecOn (motive := fun cs => Reaches cs sp x) ts _ conns hr fun _ hr _ _ => hr.addTarget⟩

/-- The `connections` map of a non-virtual `op` sends the source port of each entry of an edge
out of `op` to each of its targets, with the port's connector kind. -/
theorem collectConnections_reaches {op n : α} {p : Plan α} {nexts : List α}
    {conns : List (Targets α)} {sp q : String} {ts : List String}
    (h : collectConnections op p nexts = .ok conns) (hn : n ∈ nexts)
    (he : (sp,ts) ∈ (p.portMaps op n).getD []) (hq : q ∈ ts)
    (hop : (p.ops op).operatorType ≠ .kVirtual) (hucx : ¬isUcxOutput (p.ops op) sp) :
    Reaches conns sp (n,q) := by
  have hty : ∀ {sp' : String} {io : IOSpec}, outputSpec (p.ops op) sp' = .ok io → sp' = sp →
      io.connectorType ≠ .kUCX := fun hio hsp hu => hucx (hsp ▸ isUcxOutput_of_outputSpec hio hu)
  -- one entry of a port map: its targets added under its key
  have entry : ∀ {n' : α} {cs cs' : List (Targets α)} {sp' : String} {ts' : List String}, KeyNotUcx cs sp →
      (do let io ← outputSpec (p.ops op) sp'
          pure (ts'.foldl (fun conns t => addTarget conns sp' io.connectorType n' t) cs)) = Except.ok cs' →
      KeyNotUcx cs' sp ∧ (Reaches cs sp (n,q) → Reaches cs' sp (n,q)) := by
    intro n' cs cs' sp' ts' hk hs
    obtain ⟨io,hio,hs⟩ := (bind_eq_ok _ _ _).mp hs
    cases (pure_eq_ok _ _).mp hs
    exact foldl_addTarget ts' (hty hio) hk
  refine foldlM_ok_of_mem (fun cs => KeyNotUcx cs sp) (fun cs => Reaches cs sp (n,q)) hn ?_ ?_
    (fun _ h => absurd h (List.not_mem_nil _)) h
  · intro cs n' cs' _ hk hs
    split at hs
    · cases (pure_eq_ok _ _).mp hs
      exact ⟨hk,id⟩
    split at hs
    · cases (pure_eq_ok _ _).mp hs
      exact ⟨hk,id⟩
    exact foldlM_ok_keeps (fun cs => KeyNotUcx cs sp) (fun cs => Reaches cs sp (n,q))
      (fun cs ⟨sp',ts'⟩ cs' _ hk hs => entry hk hs) hk hs
  · intro cs cs' hk hs
    obtain ⟨pm,hpm⟩ : ∃ pm, p.portMaps op n = some pm := Option.ne_none_iff_exists'.mp fun h => by
      rw [h] at he; cases he
    rw [hpm] at he
    simp only [hpm,if_neg hop] at hs
    refine foldlM_ok_of_mem (fun cs => KeyNotUcx cs sp) (fun cs => Reaches cs sp (n,q)) he
      (fun cs ⟨sp',ts'⟩ cs' _ hk hs => entry hk hs) (fun cs cs' hk hs => ?_) hk hs
    obtain ⟨io,hio,hs⟩ := (bind_eq_ok _ _ _).mp hs
    cases (pure_eq_ok _ _).mp hs
    exact foldl_of_mem (fun cs => KeyNotUcx cs sp) (fun cs => Reaches cs sp (n,q))
      (f := fun cs t => addTarget cs sp io.connectorType n t) hq
      (fun _ _ hk => hk.addTarget (hty hio)) (fun _ _ hr => hr.addTarget)
      (fun _ hk => reaches_addTarget hk (hty hio rfl)) hk

/-- The deferred wiring connects `op` to each initialized target its `connections` map sends
a port to over a connector other than UCX. -/
theorem connectDeferred_delivers {op n : α} {visited : List α} {conns : List (Targets α)}
    {p p' : Plan α} {sp q : String} (h : connectDeferred op visited conns p = .ok p')
    (hr : Reaches conns sp (n,q)) (hinit : isInitialized p visited n) :
    (Endpoint.tx op sp,Endpoint.rx n q) ∈ p'.connections := by
  obtain ⟨⟨sp,ty,tgts⟩,hc,rfl,hty,hx⟩ := hr
  obtain ⟨l₁,l₂,d,d',rfl,h₁,hs,h₂⟩ := foldlM_ok_split hc h
  have hops : d.ops = p.ops := (connectDeferred_keeps (T := fun _ => False) h₁).keepsOps.1
  refine (connectDeferred_wires (E := fun _ _ => False) h₂).connections.subset ?_
  dsimp only at hs hty hx
  rw [if_neg hty] at hs
  refine foldlM_ok_of_mem (fun e : Plan α => e.ops = p.ops)
    (fun e => (Endpoint.tx op sp,Endpoint.rx n q) ∈ e.connections) hx ?_ ?_ hops hs
  · intro e ⟨m,t⟩ e' _ he hs
    dsimp only at hs
    split at hs
    · obtain ⟨_,-,hs⟩ := (bind_eq_ok _ _ _).mp hs
      cases (pure_eq_ok _ _).mp hs
      exact ⟨he,List.mem_append_left _⟩
    · cases (pure_eq_ok _ _).mp hs
      exact ⟨he,id⟩
  · intro e e' he hs
    dsimp only at hs
    rw [if_pos (by rwa [isInitialized_of_ops he])] at hs
    obtain ⟨_,-,hs⟩ := (bind_eq_ok _ _ _).mp hs
    cases (pure_eq_ok _ _).mp hs
    simp

/-! ### Every requested entry is delivered, on every run -/

theorem connectPreviousNodes_wires {op : α} {visited S prevs : List α} {p p' : Plan α}
    (hb : ∀ b ∈ p.broadcasts, b.op ∈ S) (h : prevs.foldlM (connectPrevious op visited) p = .ok p') :
    Wires (fun a b => a ∈ S ∧ b = op ∧ a ≠ op) p p' := by
  refine foldlM_ok_induction (Wires _ p) (fun c prev c' _ hc hs => hc.trans ?_) (.refl _ p) h
  refine (connectPrevious_wires hs).mono fun a b ⟨ha,hb',hne,hany⟩ => ⟨?_,hb',ha ▸ hne⟩
  obtain ⟨e,he,heq⟩ := List.any_eq_true.mp hany
  rw [hc.broadcasts] at he
  exact ha ▸ (decide_eq_true_eq.mp heq) ▸ hb e he

/-- A visit, step by step: the operator initialized, the predecessor loop, the `connections`
map, the deferred wiring, and the broadcast step, when it runs. -/
theorem visitOperator_wiring {G : OperatorGraph α} {op : α} {visited : List α} {p p' : Plan α}
    (h : visitOperator G op visited p = .ok p') :
    ∃ o p₁ conns p₂, (mitigateCycle (p.ops op) (detectCycle op visited (G.prevNodes op)).1
        (detectCycle op visited (G.prevNodes op)).2 >>= fun o =>
          if o.operatorType = .kVirtual then pure o
          else initializeOperator p.policy (connectionCount G.toDigraph p.portMaps op) o) = .ok o ∧
      (G.prevNodes op).foldlM (connectPrevious op visited) { p with ops := Function.update p.ops op o } = .ok p₁ ∧
      collectConnections op p₁ (G.nextNodes op) = .ok conns ∧
      connectDeferred op visited conns p₁ = .ok p₂ ∧
      (p' = p₂ ∨ ∃ p₃, createBroadcastComponents op conns p₂ = .ok p₃ ∧
        (p' = p₃ ∨ connectInitializedNext op visited p₃ (G.nextNodes op) = .ok p')) := by
  unfold visitOperator at h
  obtain ⟨o,ho,h⟩ := (bind_eq_ok _ _ _).mp h
  obtain ⟨p₁,h₁,h⟩ := (bind_eq_ok _ _ _).mp h
  obtain ⟨conns,hc,h⟩ := (bind_eq_ok _ _ _).mp h
  obtain ⟨p₂,h₂,h⟩ := (bind_eq_ok _ _ _).mp h
  refine ⟨o,p₁,conns,p₂,ho,h₁,hc,h₂,?_⟩
  split at h
  · obtain ⟨p₃,h₃,h⟩ := (bind_eq_ok _ _ _).mp h
    refine .inr ⟨p₃,h₃,?_⟩
    split at h
    · exact .inl ((pure_eq_ok _ _).mp h).symm
    · exact .inr h
  · exact .inl ((pure_eq_ok _ _).mp h).symm

/-- The broadcast step of a visit to `op` only appends, changes edge data only on edges from
`op` into visited operators, and adds entities of `op` only. -/
theorem broadcastStep_frame {op : α} {visited nexts : List α} {conns : List (Targets α)}
    {p₂ p' : Plan α} (h : p' = p₂ ∨ ∃ p₃, createBroadcastComponents op conns p₂ = .ok p₃ ∧
      (p' = p₃ ∨ connectInitializedNext op visited p₃ nexts = .ok p')) :
    Extends p₂ p' ∧ p'.ops = p₂.ops ∧ (∀ a b, ¬(a = op ∧ b ∈ visited) → p'.portMaps a b = p₂.portMaps a b) ∧
      ∀ b ∈ p'.broadcasts, b ∈ p₂.broadcasts ∨ b.op = op := by
  rcases h with rfl | ⟨p₃,h₃,h⟩
  · exact ⟨.refl _,rfl,fun _ _ _ => rfl,fun b hb => .inl hb⟩
  obtain ⟨hpm₃,hb₃⟩ := createBroadcastComponents_broadcasts h₃
  have hops₃ : p₃.ops = p₂.ops := (createBroadcastComponents_keeps (T := fun _ => False) h₃).keepsOps.1
  rcases h with rfl | h
  · exact ⟨createBroadcastComponents_extends h₃,hops₃,fun a b _ => by rw [hpm₃],hb₃⟩
  · have f := connectInitializedNext_wires h
    refine ⟨(createBroadcastComponents_extends h₃).trans f.toExtends,
      (connectInitializedNext_keeps h).keepsOps.1.trans hops₃,fun a b hab => ?_,fun b hb => ?_⟩
    · rw [f.portMaps a b hab,hpm₃]
    · exact hb₃ b (f.broadcasts ▸ hb)

/-- An entry `sp ↦ ts ∋ q` of the graph's edge `u → v` that asks for a path: both operators
non-virtual, the source port without a UCX connector, and the port map's keys distinct, as in
the `unordered_map` it models. -/
structure Requested (G : OperatorGraph α) (u : α) (sp : String) (v : α) (q : String) : Prop where
  keys : (((G.portMap u v).getD []).map (·.1)).Nodup
  entry : ∃ ts, (sp,ts) ∈ (G.portMap u v).getD [] ∧ q ∈ ts
  source : (G.ops u).operatorType ≠ .kVirtual
  target : (G.ops v).operatorType ≠ .kVirtual
  notUcx : ¬isUcxOutput (G.ops u) sp

/-- Along a run: every operator keeps its output shape; the edge data of an edge with an end
not yet visited is as in the graph; every broadcast entity belongs to a visited operator; and
every requested entry of an edge between visited operators has its path. -/
structure DeliveryInv (G : OperatorGraph α) (visited : List α) (p : Plan α) : Prop where
  shape : ∀ x, outputShape (p.ops x) = outputShape (G.ops x)
  portMaps : ∀ a b, (a ∉ visited ∨ b ∉ visited) → p.portMaps a b = G.portMap a b
  broadcasts : ∀ b ∈ p.broadcasts, b.op ∈ visited
  delivered : ∀ u v sp q, u ∈ visited → v ∈ visited → Requested G u sp v q → Delivered p u sp v q

omit [DecidableEq α] in
theorem DeliveryInv.initial (G : OperatorGraph α) (policy : MetadataPolicy) :
    DeliveryInv G [] (initialPlan G policy) :=
  ⟨fun _ => rfl,fun _ _ _ => rfl,fun _ h => absurd h (List.not_mem_nil _),
    fun _ _ _ _ h => absurd h (List.not_mem_nil _)⟩

/-- The entry of `u → op` from a visited `u` is delivered by the predecessor loop of the visit
to `op`: the passes before `u`'s leave the edge alone, and `u`'s delivers it. -/
theorem connectPreviousNodes_delivers {G : OperatorGraph α} {op u : α} {visited : List α}
    {p p₀ p₁ : Plan α} (hI : DeliveryInv G visited p) (hop : op ∉ visited) (hu : u ∈ visited)
    (h : (G.prevNodes op).foldlM (connectPrevious op (op::visited)) p₀ = .ok p₁)
    (hshape : ∀ x, outputShape (p₀.ops x) = outputShape (G.ops x)) (hpm : p₀.portMaps = p.portMaps) {sp q : String}
    (hreq : Requested G u sp op q) : Delivered p₁ u sp op q := by
  have hne : u ≠ op := fun h => hop (h ▸ hu)
  obtain ⟨ts,he,hq⟩ := hreq.entry
  have hprev : u ∈ G.prevNodes op := G.mem_prev.mpr (G.mem_next_of_mem_portMap he)
  have step : ∀ c prev c', c.ops = p₀.ops ∧ (Delivered c u sp op q ∨ c.portMaps u op = G.portMap u op) →
      connectPrevious op (op::visited) c prev = .ok c' →
      (c'.ops = p₀.ops ∧ (Delivered c' u sp op q ∨ c'.portMaps u op = G.portMap u op)) ∧
        (prev = u → Delivered c' u sp op q) := by
    intro c prev c' ⟨hops,hc⟩ hs
    have hops' : c'.ops = p₀.ops := (connectPrevious_keeps hs).keepsOps.1.trans hops
    rcases hc with hd | hcpm
    · have hd' := hd.mono (connectPrevious_wires hs).toExtends
      exact ⟨⟨hops',.inl hd'⟩,fun _ => hd'⟩
    by_cases hpu : prev = u
    · subst hpu
      have hd := connectPrevious_delivers hs hne (hcpm ▸ hreq.keys) (hcpm ▸ he) hq
        (by simp [isInitialized,hops,operatorType_of_outputShape (hshape prev),hreq.source,hu])
        (by rw [hops,operatorType_of_outputShape (hshape op)]; exact hreq.target)
        (by rw [hops,isUcxOutput_of_outputShape (hshape prev)]; exact hreq.notUcx)
      exact ⟨⟨hops',.inl hd⟩,fun _ => hd⟩
    · have hkeep := (connectPrevious_wires hs).portMaps u op fun h => hpu h.1.symm
      exact ⟨⟨hops',.inr (hkeep.trans hcpm)⟩,fun h => absurd h hpu⟩
  exact foldlM_ok_of_mem _ (fun c => Delivered c u sp op q) hprev
    (fun c prev c' _ hc hs => ⟨(step c prev c' hc hs).1,(·.mono (connectPrevious_wires hs).toExtends)⟩)
    (fun c c' hc hs => (step c u c' hc hs).2 rfl) ⟨rfl,.inr (hpm ▸ hI.portMaps u op (.inr hop))⟩ h

theorem DeliveryInv.visit {G : OperatorGraph α} {op : α} {visited : List α} {p p' : Plan α}
    (hI : DeliveryInv G visited p) (hop : op ∉ visited)
    (h : visitOperator G op (op::visited) p = .ok p') : DeliveryInv G (op::visited) p' := by
  obtain ⟨o,p₁,conns,p₂,ho,h₁,hc,h₂,htail⟩ := visitOperator_wiring h
  obtain ⟨e₃,hops₃,hpm₃,hb₃⟩ := broadcastStep_frame htail
  have hshape₀ : ∀ x, outputShape (Function.update p.ops op o x) = outputShape (G.ops x) := fun x =>
    (outputShape_update (initialized_outputShape ho) x).trans (hI.shape x)
  have hops₁ : p₁.ops = Function.update p.ops op o :=
    (keeps_foldlM (fun _ _ _ _ h => connectPrevious_keeps h) h₁).keepsOps.1
  have hops₂ : p₂.ops = p₁.ops := (connectDeferred_keeps (T := fun _ => False) h₂).keepsOps.1
  have f₁ := connectPreviousNodes_wires (p := { p with ops := Function.update p.ops op o }) hI.broadcasts h₁
  have f₂ := connectDeferred_wires (E := fun _ _ => False) h₂
  have e₁ : Extends p p₁ := (show Extends p { p with ops := Function.update p.ops op o } from
    ⟨List.prefix_refl _,List.prefix_refl _,List.prefix_refl _⟩).trans
    f₁.toExtends
  have e₂ := e₁.trans (f₂.toExtends.trans e₃)
  refine ⟨fun x => by rw [hops₃,hops₂,hops₁]; exact hshape₀ x,fun a b hab => ?_,fun b hb => ?_,
    fun u v sp q hu hv hreq => ?_⟩
  · have hab' : a ∉ visited ∨ b ∉ visited :=
      hab.imp (fun ha h => ha (List.mem_cons_of_mem _ h)) fun hb h => hb (List.mem_cons_of_mem _ h)
    rw [hpm₃ a b fun ⟨ha,hb⟩ => hab.elim (· (ha ▸ List.mem_cons_self _ _)) (· hb),f₂.portMaps a b id,
      f₁.portMaps a b fun ⟨ha,hb,_⟩ => hab.elim (· (List.mem_cons_of_mem _ ha))
        (· (hb ▸ List.mem_cons_self _ _))]
    exact hI.portMaps a b hab'
  · rcases hb₃ b hb with hb | hb
    · rw [f₂.broadcasts,f₁.broadcasts] at hb
      exact List.mem_cons_of_mem _ (hI.broadcasts b hb)
    · exact hb ▸ List.mem_cons_self _ _
  by_cases hold : u ∈ visited ∧ v ∈ visited
  · exact (hI.delivered u v sp q hold.1 hold.2 hreq).mono e₂
  refine Delivered.mono ?_ e₃
  have hshape₁ : ∀ x, outputShape (p₁.ops x) = outputShape (G.ops x) := fun x => hops₁ ▸ hshape₀ x
  by_cases huo : u = op
  · subst huo
    obtain ⟨ts,he,hq⟩ := hreq.entry
    have hpm₁ : p₁.portMaps u v = G.portMap u v :=
      (f₁.portMaps u v fun ⟨hu',_⟩ => hop hu').trans (hI.portMaps u v (.inl hop))
    refine .inl (connectDeferred_delivers h₂ (collectConnections_reaches hc
      (G.mem_next_of_mem_portMap he) (hpm₁ ▸ he) hq ?_ ?_) ?_)
    · rw [operatorType_of_outputShape (hshape₁ u)]; exact hreq.source
    · rw [isUcxOutput_of_outputShape (hshape₁ u)]; exact hreq.notUcx
    · simp [isInitialized,hv,operatorType_of_outputShape (hshape₁ v),hreq.target]
  · have hu' : u ∈ visited := (List.mem_cons.mp hu).resolve_left huo
    have hvo : v = op := by
      rcases List.mem_cons.mp hv with hv | hv
      · exact hv
      · exact absurd ⟨hu',hv⟩ hold
    subst hvo
    exact (connectPreviousNodes_delivers hI hop hu' h₁ hshape₀ rfl hreq).mono f₂.toExtends

/-- For every operator graph and every run of `initialize_fragment` that finishes, every
requested entry `sp ↦ ts ∋ q` of an edge `u → v` has a path from output `sp` of `u` into
input `q` of `v`, a direct connection or a broadcast transmitter, whatever the order of the
visits and the cycles of the graph. -/
theorem initializeFragment_delivers_every_entry {G : OperatorGraph α} {policy : MetadataPolicy}
    {s : Schedule α} {p : Plan α} (hrun : initializeFragment G policy = .finished s p) {u v : α}
    {sp q : String} (hreq : Requested G u sp v q) :
    1 ≤ directPaths p u sp v q + broadcastPaths p u sp v q := by
  have hI := runWith_invariant (DeliveryInv G) (fun _ _ _ _ _ hop h hI => hI.visit hop h) hrun
    inv_initial (DeliveryInv.initial G policy)
  obtain ⟨ts,he,-⟩ := hreq.entry
  have hnodes := G.mem_nodes (G.mem_next_of_mem_portMap he)
  have hvis := (visited_of_run_initial (runWith_run hrun)).2
  exact (hI.delivered u v sp q (hvis u hnodes.1) (hvis v hnodes.2) hreq).paths_pos

/-- On the data cycle with a fan-out to another fragment, `A.out` still reaches `B.in`. -/
theorem fanOutCycle_entry_delivered :
    ∃ s p, initializeFragment fanOutCycle .kDefault = .finished s p ∧
      Requested fanOutCycle 1 "out" 0 "in" ∧ 1 ≤ directPaths p 1 "out" 0 "in" + broadcastPaths p 1 "out" 0 "in" := by
  have hreq : Requested fanOutCycle 1 "out" 0 "in" :=
    ⟨by decide,⟨["in"],by decide,by decide⟩,by decide,by decide,by decide⟩
  obtain ⟨s,p,hrun⟩ : ∃ s p, initializeFragment fanOutCycle .kDefault = .finished s p := ⟨_,_,rfl⟩
  exact ⟨s,p,hrun,hreq,initializeFragment_delivers_every_entry hrun hreq⟩

end Delivery
end HoloscanLowering
