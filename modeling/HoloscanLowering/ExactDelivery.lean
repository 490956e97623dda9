import HoloscanLowering.Delivery

/-! How many paths `initialize_fragment` wires for one entry `sp ↦ ts ∋ q` of the port map of
an edge `u → v`. Each wiring step adds a number of them that the step itself fixes: the pass of
the visit to `v` for its predecessor `u` adds one, through `u`'s broadcast entity of `sp` or
directly, and on a graph without cycles no other step adds any. Around a cycle the deferred
wiring of `u` and the broadcast entity it gets later can both add one. -/
namespace HoloscanLowering
namespace ExactDelivery

open InitializeOperator Worklist InitializeFragment Delivery

variable {α : Type} [DecidableEq α]

/-! ### Paths as a count over the connections -/

/-- Whether a connection is a path from output `sp` of `u` into input `q` of `v`, a broadcast
transmitter looked up in `txs`: what `directPaths` and `broadcastPaths` count together. -/
def isPath (txs : List (BroadcastTx α)) (u : α) (sp : String) (v : α) (q : String) :
    Endpoint α × Endpoint α → Bool
  | (.tx a s,.rx w t) => decide (a = u ∧ s = sp ∧ w = v ∧ t = q)
  | (.btx i,.rx w t) => decide (w = v ∧ t = q) &&
      (txs.get? i).any fun b => decide (b.source = u ∧ b.port = sp)
  | _ => false

/-- The paths from output `sp` of `u` into input `q` of `v` in a plan. -/
def paths (p : Plan α) (u : α) (sp : String) (v : α) (q : String) : Nat :=
  p.connections.countP (isPath p.transmitters u sp v q)

omit [DecidableEq α] in
theorem countP_or {β : Type} {a b : β → Bool} (hab : ∀ x, ¬(a x ∧ b x)) (l : List β) :
    l.countP (fun x => a x || b x) = l.countP a + l.countP b := by
  induction l with
  | nil => rfl
  | cons x l ih =>
    have := hab x
    simp only [List.countP_cons,ih]
    cases ha : a x <;> cases hb : b x <;> simp [ha,hb] at this ⊢ <;> omega

theorem directPaths_add_broadcastPaths (p : Plan α) (u : α) (sp : String) (v : α) (q : String) :
    directPaths p u sp v q + broadcastPaths p u sp v q = paths p u sp v q := by
  unfold directPaths broadcastPaths paths
  rw [List.count,← List.countP_eq_length_filter,← countP_or]
  · congr
    funext c
    rcases c with ⟨a | a | a | a,b | b | b | b⟩ <;> simp [isPath,Bool.beq_eq_decide_eq,Bool.and_assoc]
  · rintro ⟨a | a | a | a,b | b | b | b⟩ <;> simp

def Indexed (p : Plan α) : Prop :=
  ∀ c ∈ p.connections, ∀ i, c.1 = .btx i → i < p.transmitters.length

theorem isPath_append {txs : List (BroadcastTx α)} (more : List (BroadcastTx α)) {u v : α}
    {sp q : String} {c : Endpoint α × Endpoint α} (hc : ∀ i, c.1 = .btx i → i < txs.length) :
    isPath (txs++more) u sp v q c = isPath txs u sp v q c := by
  obtain ⟨a,b⟩ := c
  cases a with
  | btx i => cases b <;> simp [isPath,List.getElem?_append_left (hc i rfl)]
  | _ => cases b <;> rfl

omit [DecidableEq α] in
theorem sum_map_ite_eq_count {β : Type} [DecidableEq β] (l : List β) (q : β) :
    (l.map fun t => if t = q then 1 else 0).sum = l.count q := by
  induction l with
  | nil => rfl
  | cons t l ih => simp only [List.map_cons,List.sum_cons,List.count_cons,ih,beq_iff_eq]; omega

/-- The port map of `u → v` has distinct keys, and `ts` is the only target list of `sp` in it. -/
def SoleEntry (p : Plan α) (u : α) (sp : String) (v : α) (ts : List String) : Prop :=
  (((p.portMaps u v).getD []).map (·.1)).Nodup ∧ ∀ ts', (sp,ts') ∈ (p.portMaps u v).getD [] → ts' = ts

theorem connectDirect_cons {op prev : α} {visited : List α} (x : String × List String) (pm : PortMap)
    (p : Plan α) : connectDirect op prev visited (x::pm) p =
      connectDirect op prev visited [x] p >>= connectDirect op prev visited pm := by
  simp only [connectDirect,List.foldlM_cons,List.foldlM_nil,bind_pure]
  rfl

theorem sum_entries_of_sole {pm : PortMap} {sp q : String} {ts : List String} (hk : (pm.map (·.1)).Nodup)
    (hs : ∀ ts', (sp,ts') ∈ pm → ts' = ts) :
    (pm.map fun e => if e.1 = sp then e.2.count q else 0).sum = if (sp,ts) ∈ pm then ts.count q else 0 := by
  induction pm with
  | nil => simp
  | cons x pm ih =>
    obtain ⟨k,ts'⟩ := x
    rw [List.map_cons,List.nodup_cons] at hk
    rw [List.map_cons,List.sum_cons,ih hk.2 fun ts'' h => hs ts'' (List.mem_cons_of_mem _ h)]
    by_cases hkey : k = sp
    · subst hkey
      have hno : (k,ts) ∉ pm := fun h => hk.1 (List.mem_map_of_mem (·.1) h)
      simp [hs ts' (List.mem_cons_self _ _),hno]
    · simp [hkey,Ne.symm hkey]

/-! ### How many paths a step adds -/

section Adds

variable {u : α} {sp : String} {v : α} {q : String}

variable (u sp v q) in
/-- `p'` has `k` paths from output `sp` of `u` into input `q` of `v` more than `p`, and keeps
the transmitter indices of its connections in range. -/
structure Adds (k : Nat) (p p' : Plan α) : Prop where
  indexed : Indexed p → Indexed p'
  count : Indexed p → paths p' u sp v q = paths p u sp v q + k

theorem Adds.trans {k l : Nat} {p p₁ p₂ : Plan α} (h₁ : Adds u sp v q k p p₁)
    (h₂ : Adds u sp v q l p₁ p₂) : Adds u sp v q (k + l) p p₂ :=
  ⟨fun hi => h₂.indexed (h₁.indexed hi),fun hi => by rw [h₂.count (h₁.indexed hi),h₁.count hi]; omega⟩

theorem Adds.of_count {k k' : Nat} {p p' : Plan α} (h : Adds u sp v q k p p') (hk : k = k') :
    Adds u sp v q k' p p' :=
  hk ▸ h

theorem Adds.of_lists {p p' : Plan α} (hc : p'.connections = p.connections)
    (ht : p'.transmitters = p.transmitters) : Adds u sp v q 0 p p' :=
  ⟨fun hi => by rwa [Indexed,hc,ht],fun _ => by rw [paths,paths,hc,ht]; rfl⟩

theorem adds_append {p p' : Plan α} {new : List (Endpoint α × Endpoint α)} {more : List (BroadcastTx α)}
    (hc : p'.connections = p.connections++new) (ht : p'.transmitters = p.transmitters++more)
    (hnew : ∀ c ∈ new, ∀ i, c.1 = .btx i → i < p'.transmitters.length) :
    Adds u sp v q (new.countP (isPath p'.transmitters u sp v q)) p p' := by
  refine ⟨fun hi c hc' i hi' => ?_,fun hi => ?_⟩
  · rw [hc] at hc'
    rcases List.mem_append.mp hc' with h | h
    · rw [ht,List.length_append]
      exact Nat.lt_add_right _ (hi c h i hi')
    · exact hnew c h i hi'
  · rw [paths,paths,hc,List.countP_append,ht]
    congr 1
    exact List.countP_congr fun c hc' => by rw [isPath_append more (hi c hc')]

theorem Adds.of_lists_right {k : Nat} {p p₁ p₂ : Plan α} (h : Adds u sp v q k p p₁)
    (hc : p₂.connections = p₁.connections) (ht : p₂.transmitters = p₁.transmitters) : Adds u sp v q k p p₂ :=
  h.trans (.of_lists hc ht)

theorem adds_of_transmitters {p p' : Plan α} {more : List (BroadcastTx α)}
    (hc : p'.connections = p.connections) (ht : p'.transmitters = p.transmitters++more) :
    Adds u sp v q 0 p p' :=
  adds_append (hc.trans (List.append_nil _).symm) ht (by simp)

theorem adds_foldlM {γ : Type} (P : Plan α → Prop) (κ : γ → Nat) {f : Plan α → γ → Except Abort (Plan α)}
    {l : List γ} {p p' : Plan α}
    (hf : ∀ b x b', x ∈ l → P b → f b x = .ok b' → P b' ∧ Adds u sp v q (κ x) b b') (hp : P p)
    (h : l.foldlM f p = .ok p') : P p' ∧ Adds u sp v q (l.map κ).sum p p' := by
  induction l generalizing p with
  | nil => cases h; exact ⟨hp,.of_lists rfl rfl⟩
  | cons x l ih =>
    obtain ⟨p₁,h₁,h⟩ := (bind_eq_ok _ _ _).mp h
    obtain ⟨hp₁,a₁⟩ := hf p x p₁ (List.mem_cons_self _ _) hp h₁
    obtain ⟨hp',a₂⟩ := ih (fun b y b' hy => hf b y b' (List.mem_cons_of_mem _ hy)) hp₁ h
    exact ⟨hp',(a₁.trans a₂).of_count (by simp)⟩

theorem adds_zero_foldlM {γ : Type} {f : Plan α → γ → Except Abort (Plan α)} {l : List γ} {p p' : Plan α}
    (hf : ∀ b x b', x ∈ l → f b x = .ok b' → Adds u sp v q 0 b b') (h : l.foldlM f p = .ok p') :
    Adds u sp v q 0 p p' :=
  (adds_foldlM (fun _ => True) (fun _ => 0) (fun b x b' hx _ hs => ⟨trivial,hf b x b' hx hs⟩) trivial h).2.of_count
    (by simp)

/-- A transmitter adds a path exactly when it is one of `u`'s entity of `sp` for input `q` of
`v`; that one is a double buffer when `v` is not virtual and `sp` not UCX. -/
theorem addBroadcastTx_adds {op prev : α} {port t : String} {p p' : Plan α}
    (h : addBroadcastTx op prev port t p = .ok p')
    (hdb : op = v → prev = u → port = sp →
      (p.ops op).operatorType ≠ .kVirtual ∧ ¬isUcxOutput (p.ops prev) port) :
    Adds u sp v q (if op = v ∧ prev = u ∧ port = sp ∧ t = q then 1 else 0) p p' := by
  unfold addBroadcastTx at h
  obtain ⟨io,hio,h⟩ := (bind_eq_ok _ _ _).mp h
  dsimp only at h
  split at h
  · obtain ⟨_,-,h⟩ := (bind_eq_ok _ _ _).mp h
    cases (pure_eq_ok _ _).mp h
    refine (adds_append rfl rfl (by simp)).of_count ?_
    by_cases hm : op = v ∧ prev = u ∧ port = sp ∧ t = q
    · obtain ⟨rfl,rfl,rfl,rfl⟩ := hm
      simp [isPath]
    · rw [if_neg hm]
      simp only [List.countP_cons,List.countP_nil,isPath,List.get?_eq_getElem?,
        List.getElem?_concat_length,Option.any_some,Bool.and_eq_true,decide_eq_true_eq,Nat.zero_add]
      exact if_neg fun h => hm ⟨h.1.1,h.2.1,h.2.2,h.1.2⟩
  all_goals
    rename_i hk
    cases (pure_eq_ok _ _).mp h
    rw [if_neg (show ¬(op = v ∧ prev = u ∧ port = sp ∧ t = q) from fun ⟨h₁,h₂,h₃,_⟩ => ?_)]
    · first
        | exact Adds.of_lists rfl rfl
        | exact adds_of_transmitters rfl rfl
    obtain ⟨hop,hucx⟩ := hdb h₁ h₂ h₃
    have hty : io.connectorType ≠ .kUCX := fun hu => hucx (isUcxOutput_of_outputSpec hio hu)
    split_ifs at hk
    first
      | cases hk
      | exact absurd ‹(p.ops op).operatorType = .kVirtual› hop
      | exact absurd hk hty
      | exact absurd hk ‹¬io.connectorType = .kDefault›

theorem connectBroadcastToPreviousOp_adds_zero {op prev : α} {p p' : Plan α} (hne : ¬(op = v ∧ prev = u))
    (h : connectBroadcastToPreviousOp op prev p = .ok p') : Adds u sp v q 0 p p' := by
  refine adds_zero_foldlM (fun b x b' _ hb => ?_) h
  dsimp only at hb
  split at hb
  · obtain ⟨b₁,h₁,hb⟩ := (bind_eq_ok _ _ _).mp hb
    cases (pure_eq_ok _ _).mp hb
    have a₁ : Adds u sp v q 0 b b₁ := adds_zero_foldlM (fun c t c' _ hc =>
      (addBroadcastTx_adds hc fun h₁ h₂ => absurd ⟨h₁,h₂⟩ hne).of_count (if_neg fun h => hne ⟨h.1,h.2.1⟩)) h₁
    exact a₁.of_lists_right (by rfl) (by rfl)
  · cases (pure_eq_ok _ _).mp hb
    exact .of_lists rfl rfl

theorem connectBroadcastToPreviousOp_adds {p p' : Plan α} {ts : List String}
    (h : connectBroadcastToPreviousOp v u p = .ok p') (hs : SoleEntry p u sp v ts)
    (he : (sp,ts) ∈ (p.portMaps u v).getD []) (hnd : ts.Nodup) (hq : q ∈ ts)
    (hop : (p.ops v).operatorType ≠ .kVirtual) (hucx : ¬isUcxOutput (p.ops u) sp) :
    p'.ops = p.ops ∧ SoleEntry p' u sp v ts ∧ ((sp,ts) ∈ (p'.portMaps u v).getD [] ∧ Adds u sp v q 0 p p' ∨
      (sp,ts) ∉ (p'.portMaps u v).getD [] ∧ Adds u sp v q 1 p p') := by
  refine foldlM_ok_induction (fun c : Plan α => c.ops = p.ops ∧ SoleEntry c u sp v ts ∧
      ((sp,ts) ∈ (c.portMaps u v).getD [] ∧ Adds u sp v q 0 p c ∨
        (sp,ts) ∉ (c.portMaps u v).getD [] ∧ Adds u sp v q 1 p c))
    (fun c b c' _ ⟨hops,hsc,hc⟩ hstep => ?_) ⟨rfl,hs,.inl ⟨he,.of_lists rfl rfl⟩⟩ h
  dsimp only at hstep
  split at hstep
  · rename_i hany
    obtain ⟨c₁,h₁,hstep⟩ := (bind_eq_ok _ _ _).mp hstep
    cases (pure_eq_ok _ _).mp hstep
    have hops₁ : c₁.ops = p.ops :=
      ((keeps_foldlM (T := fun _ => False) (fun _ _ _ _ h => addBroadcastTx_keeps h) h₁).keepsOps.1).trans hops
    have hmem : ∀ x, x ∈ (setPortMap c₁.portMaps u v (((c.portMaps u v).getD []).erase b.port) u v).getD [] ↔
        x ∈ (c.portMaps u v).getD [] ∧ x.1 ≠ b.port := fun x => by simp [setPortMap]
    have hsc' : SoleEntry
        { c₁ with portMaps := setPortMap c₁.portMaps u v (((c.portMaps u v).getD []).erase b.port) } u sp v ts :=
      ⟨by simpa [setPortMap] using PortMap.erase_keys_nodup b.port hsc.1,fun ts' h' => hsc.2 ts' ((hmem _).mp h').1⟩
    refine ⟨hops₁,hsc',?_⟩
    by_cases hb : b.port = sp
    · obtain ⟨x,hx,hxk⟩ := List.any_eq_true.mp hany
      have hxe : x = (sp,ts) := by
        obtain ⟨k,ts'⟩ := x
        obtain rfl : k = sp := (decide_eq_true_eq.mp hxk).trans hb
        rw [hsc.2 ts' hx]
      have he₀ : (sp,ts) ∈ (c.portMaps u v).getD [] := hxe ▸ hx
      have a₀ : Adds u sp v q 0 p c := hc.resolve_right (fun h => h.1 he₀) |>.2
      rw [hb,PortMap.targets_of_mem hsc.1 he₀] at h₁
      have a₁ : Adds u sp v q ((ts.map fun t => if t = q then 1 else 0).sum) c c₁ :=
        (adds_foldlM (fun d : Plan α => d.ops = p.ops) (fun t => if t = q then 1 else 0)
        (fun d t d' _ hd hs => ⟨(addBroadcastTx_keeps (T := fun _ => False) hs).keepsOps.1.trans hd,
          (addBroadcastTx_adds hs fun _ _ _ => ⟨hd ▸ hop,hd ▸ hucx⟩).of_count (by simp)⟩) hops h₁).2
      rw [sum_map_ite_eq_count,List.count_eq_one_of_mem hnd hq] at a₁
      exact .inr ⟨fun h => ((hmem _).mp h).2 hb.symm,((a₀.trans a₁).of_lists_right (by rfl) (by rfl)).of_count rfl⟩
    · have a₁ : Adds u sp v q 0 c c₁ := adds_zero_foldlM (fun d t d' _ hs =>
        (addBroadcastTx_adds hs fun _ _ h => absurd h hb).of_count (if_neg fun h => hb h.2.2.1)) h₁
      have hiff := hmem (sp,ts)
      rcases hc with ⟨he₀,a₀⟩ | ⟨he₀,a₀⟩
      · exact .inl ⟨hiff.mpr ⟨he₀,Ne.symm hb⟩,(a₀.trans a₁).of_lists_right (by rfl) (by rfl)⟩
      · exact .inr ⟨fun h => he₀ (hiff.mp h).1,(a₀.trans a₁).of_lists_right (by rfl) (by rfl)⟩
  · cases (pure_eq_ok _ _).mp hstep
    exact ⟨hops,hsc,hc⟩

theorem adds_of_connections {p p' : Plan α} {new : List (Endpoint α × Endpoint α)}
    (hc : p'.connections = p.connections++new) (ht : p'.transmitters = p.transmitters)
    (hnew : ∀ c ∈ new, ∀ i, c.1 = .btx i → i < p'.transmitters.length) :
    Adds u sp v q (new.countP (isPath p'.transmitters u sp v q)) p p' :=
  adds_append hc (ht.trans (List.append_nil _).symm) hnew

theorem connectDirect_single_adds {op prev : α} {visited : List α} {sp' : String} {ts' : List String}
    {p p' : Plan α} (h : connectDirect op prev visited [(sp',ts')] p = .ok p')
    (hucx : op = v → prev = u → ¬isUcxOutput (p.ops prev) sp) :
    p'.ops = p.ops ∧ Adds u sp v q (if op = v ∧ prev = u ∧ isInitialized p visited prev then
      (if sp' = sp then ts'.count q else 0) else 0) p p' := by
  obtain ⟨c,hc,h⟩ := (bind_eq_ok _ _ _).mp h
  cases (pure_eq_ok _ _).mp h
  dsimp only at hc
  obtain ⟨io,hio,hc⟩ := (bind_eq_ok _ _ _).mp hc
  split at hc
  · have step : ∀ d t d', t ∈ ts' → d.ops = p.ops → (do
          let _ ← inputSpec (d.ops op) t
          pure (if isInitialized d visited prev then
            { d with connections := d.connections++[(.tx prev sp',.rx op t)] } else d)) = Except.ok d' →
        d'.ops = p.ops ∧ Adds u sp v q (if op = v ∧ prev = u ∧ isInitialized p visited prev then
          (if sp' = sp then (if t = q then 1 else 0) else 0) else 0) d d' := by
      intro d t d' _ hd hs
      obtain ⟨_,-,hs⟩ := (bind_eq_ok _ _ _).mp hs
      cases (pure_eq_ok _ _).mp hs
      rw [isInitialized_of_ops hd]
      by_cases hi : isInitialized p visited prev = true
      · rw [if_pos hi]
        refine ⟨hd,Adds.of_count (adds_of_connections (by rfl) (by rfl) (by simp)) ?_⟩
        simp only [List.countP_cons,List.countP_nil,isPath,Nat.zero_add,hi,and_true,decide_eq_true_eq]
        split_ifs <;> first | rfl | (exfalso; tauto)
      · rw [if_neg hi]
        exact ⟨hd,(Adds.of_lists rfl rfl).of_count (by simp [hi])⟩
    obtain ⟨hops,a⟩ := adds_foldlM (fun d : Plan α => d.ops = p.ops) _ step rfl hc
    refine ⟨hops,a.of_count ?_⟩
    split_ifs <;> simp [sum_map_ite_eq_count]
  · split at hc
    · cases hc
    · rename_i hu _
      cases (pure_eq_ok _ _).mp hc
      refine ⟨rfl,(Adds.of_lists rfl rfl).of_count ?_⟩
      split_ifs with hm hsp
      · subst hsp
        exact absurd (isUcxOutput_of_outputSpec hio (not_not.mp hu)) (hucx hm.1 hm.2.1)
      all_goals rfl

theorem connectDirect_adds {op prev : α} {visited : List α} {pm : PortMap} {p p' : Plan α}
    (h : connectDirect op prev visited pm p = .ok p')
    (hucx : op = v → prev = u → ¬isUcxOutput (p.ops prev) sp) :
    p'.ops = p.ops ∧ Adds u sp v q (if op = v ∧ prev = u ∧ isInitialized p visited prev then
      (pm.map fun e => if e.1 = sp then e.2.count q else 0).sum else 0) p p' := by
  induction pm generalizing p with
  | nil =>
    cases h
    exact ⟨rfl,(Adds.of_lists rfl rfl).of_count (by simp)⟩
  | cons x pm ih =>
    rw [connectDirect_cons] at h
    obtain ⟨p₁,h₁,h⟩ := (bind_eq_ok _ _ _).mp h
    obtain ⟨hops₁,a₁⟩ := connectDirect_single_adds h₁ hucx
    obtain ⟨hops,a₂⟩ := ih h fun h₁ h₂ => hops₁ ▸ hucx h₁ h₂
    refine ⟨hops.trans hops₁,(a₁.trans a₂).of_count ?_⟩
    rw [isInitialized_of_ops hops₁]
    split_ifs <;> simp_all

theorem connectPrevious_adds_zero {op prev : α} {visited : List α} {p p' : Plan α}
    (hne : ¬(op = v ∧ prev = u)) (h : connectPrevious op visited p prev = .ok p') : Adds u sp v q 0 p p' := by
  unfold connectPrevious at h
  split at h
  · cases (pure_eq_ok _ _).mp h
    exact .of_lists rfl rfl
  split at h
  · cases h
  obtain ⟨p₁,h₁,h⟩ := (bind_eq_ok _ _ _).mp h
  have a₁ : Adds u sp v q 0 p p₁ := by
    split at h₁
    · exact connectBroadcastToPreviousOp_adds_zero hne h₁
    · cases (pure_eq_ok _ _).mp h₁
      exact .of_lists rfl rfl
  dsimp only at h
  split at h
  · cases (pure_eq_ok _ _).mp h
    exact a₁
  · exact a₁.trans ((connectDirect_adds h fun h₁ h₂ => absurd ⟨h₁,h₂⟩ hne).2.of_count
      (if_neg fun h => hne ⟨h.1,h.2.1⟩))

/-- The pass of the visit to `v` for its initialized predecessor `u` adds exactly one path of
the entry `sp ↦ ts ∋ q`: the broadcast entity of `sp` adds it and erases the entry, or, without
one, the direct wiring does. -/
theorem connectPrevious_adds_one {visited : List α} {p p' : Plan α} {ts : List String}
    (h : connectPrevious v visited p u = .ok p') (hne : u ≠ v) (hs : SoleEntry p u sp v ts)
    (he : (sp,ts) ∈ (p.portMaps u v).getD []) (hnd : ts.Nodup) (hq : q ∈ ts)
    (hinit : isInitialized p visited u) (hop : (p.ops v).operatorType ≠ .kVirtual)
    (hucx : ¬isUcxOutput (p.ops u) sp) : Adds u sp v q 1 p p' := by
  unfold connectPrevious at h
  rw [if_neg hne] at h
  split at h
  · cases h
  obtain ⟨p₁,h₁,h⟩ := (bind_eq_ok _ _ _).mp h
  have hb : p₁.ops = p.ops ∧ SoleEntry p₁ u sp v ts ∧ ((sp,ts) ∈ (p₁.portMaps u v).getD [] ∧
      Adds u sp v q 0 p p₁ ∨ (sp,ts) ∉ (p₁.portMaps u v).getD [] ∧ Adds u sp v q 1 p p₁) := by
    split at h₁
    · exact connectBroadcastToPreviousOp_adds h₁ hs he hnd hq hop hucx
    · cases (pure_eq_ok _ _).mp h₁
      exact ⟨rfl,hs,.inl ⟨he,.of_lists rfl rfl⟩⟩
  obtain ⟨hops,hs₁,hb⟩ := hb
  dsimp only at h
  split at h
  · rename_i hskip
    cases (pure_eq_ok _ _).mp h
    refine (hb.resolve_left fun ⟨he₁,_⟩ => ?_).2
    have hu : (p.ops u).operatorType ≠ .kVirtual := by
      simpa using ((Bool.and_eq_true _ _).mp hinit).2
    simp only [Bool.or_eq_true,decide_eq_true_eq,hops,List.isEmpty_iff] at hskip
    rcases hskip with (hskip | hskip) | hskip
    · rw [hskip] at he₁
      cases he₁
    · exact hu hskip
    · exact hop hskip
  · obtain ⟨-,a₂⟩ := connectDirect_adds (v := v) (q := q) h fun _ _ => hops ▸ hucx
    rw [if_pos ⟨rfl,rfl,(isInitialized_of_ops hops visited u).trans hinit⟩,sum_entries_of_sole hs₁.1 hs₁.2] at a₂
    rcases hb with ⟨he₁,a₁⟩ | ⟨he₁,a₁⟩
    · rw [if_pos he₁,List.count_eq_one_of_mem hnd hq] at a₂
      exact (a₁.trans a₂).of_count rfl
    · rw [if_neg he₁] at a₂
      exact a₁.trans a₂

theorem connectDeferred_adds_zero {op : α} {visited : List α} {conns : List (Targets α)} {p p' : Plan α}
    (hv : op = u → ¬isInitialized p visited v) (h : connectDeferred op visited conns p = .ok p') :
    Adds u sp v q 0 p p' := by
  refine (adds_foldlM (fun c : Plan α => c.ops = p.ops) (fun _ => 0)
    (fun c ⟨sp',ty,tgts⟩ c' _ hc hs => ?_) rfl h).2.of_count (by simp)
  dsimp only at hs
  split at hs
  · cases (pure_eq_ok _ _).mp hs
    exact ⟨hc,.of_lists rfl rfl⟩
  refine (adds_foldlM (fun d : Plan α => d.ops = p.ops) (fun _ => 0)
    (fun d ⟨n,t⟩ d' _ hd hs => ?_) hc hs).imp id (·.of_count (by simp))
  dsimp only at hs
  split at hs
  · rename_i hn
    obtain ⟨_,-,hs⟩ := (bind_eq_ok _ _ _).mp hs
    cases (pure_eq_ok _ _).mp hs
    refine ⟨hd,Adds.of_count (adds_of_connections (by rfl) (by rfl) (by simp)) ?_⟩
    simp only [List.countP_cons,List.countP_nil,isPath,Nat.zero_add]
    rw [if_neg]
    rintro hm
    obtain ⟨h₁,-,rfl,-⟩ := of_decide_eq_true hm
    exact hv h₁ (by rwa [isInitialized_of_ops hd] at hn)
  · cases (pure_eq_ok _ _).mp hs
    exact ⟨hd,.of_lists rfl rfl⟩

theorem createBroadcastComponents_adds_zero {op : α} {conns : List (Targets α)} {p p' : Plan α}
    (h : createBroadcastComponents op conns p = .ok p') : Adds u sp v q 0 p p' := by
  refine adds_zero_foldlM (fun c ⟨sp',ty,tgts⟩ c' _ hc => ?_) h
  dsimp only at hc
  split at hc
  · cases (pure_eq_ok _ _).mp hc
    exact .of_lists rfl rfl
  · obtain ⟨_,-,hc⟩ := (bind_eq_ok _ _ _).mp hc
    cases (pure_eq_ok _ _).mp hc
    exact Adds.of_count (adds_of_connections (by rfl) (by rfl) (by simp)) (by simp [isPath])

theorem connectInitializedNext_adds_zero {op : α} {visited nexts : List α} {p p' : Plan α}
    (hv : op = u → ¬isInitialized p visited v) (h : connectInitializedNext op visited p nexts = .ok p') :
    Adds u sp v q 0 p p' := by
  refine (adds_foldlM (fun c : Plan α => c.ops = p.ops) (fun _ => 0) (fun c n c' _ hc hs => ?_) rfl h).2.of_count
    (by simp)
  split at hs
  · rename_i hn
    split at hs
    · cases hs
    split at hs
    · refine ⟨(connectBroadcastToPreviousOp_keeps hs).keepsOps.1.trans hc,
        connectBroadcastToPreviousOp_adds_zero (fun ⟨h₁,h₂⟩ => ?_) hs⟩
      subst h₁
      exact hv h₂ (by rwa [isInitialized_of_ops hc] at hn)
    · cases (pure_eq_ok _ _).mp hs
      exact ⟨hc,.of_lists rfl rfl⟩
  · cases (pure_eq_ok _ _).mp hs
    exact ⟨hc,.of_lists rfl rfl⟩

/-- A visit to an operator other than `v` adds no path of `(u, sp, v, q)`, as long as a visit
to `u` finds `v` not yet visited. -/
theorem visitOperator_adds_zero {G : OperatorGraph α} {op : α} {visited : List α} {p p' : Plan α}
    (hv : op ≠ v) (hu : op = u → v ∉ visited) (h : visitOperator G op visited p = .ok p') :
    Adds u sp v q 0 p p' := by
  obtain ⟨o,p₁,conns,p₂,-,h₁,-,h₂,htail⟩ := visitOperator_wiring h
  have hinit : ∀ c : Plan α, op = u → ¬isInitialized c visited v := fun c hop hi =>
    hu hop (by simpa using ((Bool.and_eq_true _ _).mp hi).1)
  have a₁ : Adds u sp v q 0 p p₂ :=
    ((Adds.of_lists rfl rfl : Adds u sp v q 0 p { p with ops := Function.update p.ops op o }).trans
      (adds_zero_foldlM (fun _ _ _ _ hs => connectPrevious_adds_zero (fun h => hv h.1) hs) h₁)).trans
      (connectDeferred_adds_zero (hinit p₁) h₂)
  rcases htail with rfl | ⟨p₃,h₃,rfl | h₄⟩
  · exact a₁
  · exact a₁.trans (createBroadcastComponents_adds_zero h₃)
  · exact (a₁.trans (createBroadcastComponents_adds_zero h₃)).trans
      (connectInitializedNext_adds_zero (hinit p₃) h₄)

/-- The visit to `v`, with `u` visited before it, adds exactly one path of a requested entry
`sp ↦ ts ∋ q` of `u → v` with distinct targets: the passes for the other predecessors and the
rest of the visit wire from other operators. -/
theorem visitOperator_adds_one {G : OperatorGraph α} {visited : List α} {p p' : Plan α}
    (hI : DeliveryInv G visited p) (hv : v ∉ visited) (hu : u ∈ visited) (hreq : Requested G u sp v q)
    (hts : ∀ ts, (sp,ts) ∈ (G.portMap u v).getD [] → ts.Nodup)
    (h : visitOperator G v (v::visited) p = .ok p') : Adds u sp v q 1 p p' := by
  obtain ⟨o,p₁,conns,p₂,ho,h₁,-,h₂,htail⟩ := visitOperator_wiring h
  have hne : u ≠ v := fun h => hv (h ▸ hu)
  obtain ⟨ts,he,hq⟩ := hreq.entry
  have hsole : ∀ ts', (sp,ts') ∈ (G.portMap u v).getD [] → ts' = ts := fun ts' h' =>
    congrArg Prod.snd (List.inj_on_of_nodup_map hreq.keys h' he rfl)
  have hshape₀ : ∀ x, outputShape (Function.update p.ops v o x) = outputShape (G.ops x) := fun x =>
    (outputShape_update (initialized_outputShape ho) x).trans (hI.shape x)
  have hpm₀ : p.portMaps u v = G.portMap u v := hI.portMaps u v (.inr hv)
  obtain ⟨l₁,l₂,c,c',hl,hc₁,hcu,hc₂⟩ := foldlM_ok_split (G.mem_prev.mpr (G.mem_next_of_mem_portMap he)) h₁
  have hnd : (l₁++u::l₂).Nodup := hl ▸ G.prev_nodup v
  have hu₁ : u ∉ l₁ := fun h => List.disjoint_of_nodup_append hnd h (List.mem_cons_self _ _)
  have hu₂ : u ∉ l₂ := (List.nodup_cons.mp (List.nodup_append.mp hnd).2.1).1
  -- the passes before `u`'s leave the operators, the edge `u → v` and the paths alone
  obtain ⟨hcops,hcpm,a₁⟩ := foldlM_ok_induction (fun c : Plan α => c.ops = Function.update p.ops v o ∧
      c.portMaps u v = p.portMaps u v ∧ Adds u sp v q 0 p c)
    (fun c prev c' hprev ⟨hops,hpm,a⟩ hs => ⟨(connectPrevious_keeps hs).keepsOps.1.trans hops,
      ((connectPrevious_wires hs).portMaps u v fun h => hu₁ (h.1 ▸ hprev)).trans hpm,
      a.trans (connectPrevious_adds_zero (fun h => hu₁ (h.2 ▸ hprev)) hs)⟩)
    ⟨by rfl,by rfl,.of_lists (by rfl) (by rfl)⟩ hc₁
  have hcpm' : c.portMaps u v = G.portMap u v := hcpm.trans hpm₀
  have a₂ := connectPrevious_adds_one hcu hne ⟨hcpm' ▸ hreq.keys,hcpm' ▸ hsole⟩ (hcpm' ▸ he) (hts ts he) hq
    (by simp [isInitialized,hu,hcops,operatorType_of_outputShape (hshape₀ u),hreq.source])
    (by rw [hcops,operatorType_of_outputShape (hshape₀ v)]; exact hreq.target)
    (by rw [hcops,isUcxOutput_of_outputShape (hshape₀ u)]; exact hreq.notUcx)
  have a₃ : Adds u sp v q 0 c' p₁ :=
    adds_zero_foldlM (fun _ prev _ hprev hs => connectPrevious_adds_zero (fun h => hu₂ (h.2 ▸ hprev)) hs) hc₂
  -- the rest of the visit wires from `v`
  have hinit : ∀ c : Plan α, v = u → ¬isInitialized c (v::visited) v := fun _ h => absurd h.symm hne
  have a₄ : Adds u sp v q 1 p p₂ := (((a₁.trans a₂).trans a₃).trans (connectDeferred_adds_zero (hinit p₁) h₂)).of_count rfl
  rcases htail with rfl | ⟨p₃,h₃,rfl | h₄⟩
  · exact a₄
  · exact a₄.trans (createBroadcastComponents_adds_zero h₃)
  · exact (a₄.trans (createBroadcastComponents_adds_zero h₃)).trans
      (connectInitializedNext_adds_zero (hinit p₃) h₄)

end Adds

/-! ### One path per requested entry on every acyclic run -/

/-- Along a run whose visits so far are in topological order: the delivery invariant, the
transmitter indices in range, and one path of `(u, sp, v, q)` once `u` and `v` are both
visited, none before. -/
def ExactInv (G : OperatorGraph α) (u : α) (sp : String) (v : α) (q : String) (visited : List α)
    (p : Plan α) : Prop :=
  Topo G.toDigraph visited →
    DeliveryInv G visited p ∧ Indexed p ∧ paths p u sp v q = if u ∈ visited ∧ v ∈ visited then 1 else 0

theorem ExactInv.visit {G : OperatorGraph α} {u v op : α} {sp q : String} {visited : List α}
    {p p' : Plan α} (hreq : Requested G u sp v q) (hts : ∀ ts, (sp,ts) ∈ (G.portMap u v).getD [] → ts.Nodup)
    (hI : ExactInv G u sp v q visited p) (hop : op ∉ visited)
    (h : visitOperator G op (op::visited) p = .ok p') : ExactInv G u sp v q (op::visited) p' := by
  intro htopo
  obtain ⟨hD,hi,hc⟩ := hI htopo.2
  obtain ⟨ts,he,-⟩ := hreq.entry
  have huv : u ∈ G.prevNodes v := G.mem_prev.mpr (G.mem_next_of_mem_portMap he)
  -- visiting `u`, the topological order leaves `v` unvisited
  have hvu : op = u → v ∉ op::visited := by
    rintro rfl hv
    rcases List.mem_cons.mp hv with rfl | hv
    · exact hop (htopo.1 _ huv)
    · exact hop ((Topo.sublist htopo.2 hv huv).subset (by simp))
  have a : Adds u sp v q (if op = v then 1 else 0) p p' := by
    by_cases hv : op = v
    · subst hv
      exact (visitOperator_adds_one hD hop (htopo.1 u huv) hreq hts h).of_count (if_pos rfl).symm
    · exact (visitOperator_adds_zero hv hvu h).of_count (if_neg hv).symm
  refine ⟨hD.visit hop h,a.indexed hi,?_⟩
  rw [a.count hi,hc]
  by_cases hv : op = v
  · subst hv
    simp [htopo.1 u huv,hop]
  · by_cases hu : op = u
    · have := hvu hu
      subst hu
      simp_all
    · simp [hv,hu,Ne.symm hv,Ne.symm hu]

/-- On an acyclic operator graph every run of `initialize_fragment` that finishes wires each
requested entry `sp ↦ ts ∋ q` of an edge `u → v`, its targets distinct, exactly once: one direct
connection or one broadcast transmitter, never both. -/
theorem initializeFragment_acyclic_delivers_once {G : OperatorGraph α} {policy : MetadataPolicy}
    {s : Schedule α} {p : Plan α} (hg : G.Acyclic) (hrun : initializeFragment G policy = .finished s p)
    {u v : α} {sp q : String} (hreq : Requested G u sp v q)
    (hts : ∀ ts, (sp,ts) ∈ (G.portMap u v).getD [] → ts.Nodup) :
    directPaths p u sp v q + broadcastPaths p u sp v q = 1 := by
  have hI := runWith_invariant (ExactInv G u sp v q) (fun _ _ _ _ _ hop h hI => hI.visit hreq hts hop h)
    hrun inv_initial (fun _ => ⟨DeliveryInv.initial G policy,fun _ h => absurd h (List.not_mem_nil _),rfl⟩)
  obtain ⟨-,-,hc⟩ := hI (topo_of_run_initial hg (runWith_run hrun))
  obtain ⟨ts,he,-⟩ := hreq.entry
  have hnodes := G.mem_nodes (G.mem_next_of_mem_portMap he)
  have hvis := (visited_of_run_initial (runWith_run hrun)).2
  rw [directPaths_add_broadcastPaths,hc,if_pos ⟨hvis u hnodes.1,hvis v hnodes.2⟩]

def fanOutChain : OperatorGraph Nat :=
  .ofEdges [0,1,2]
    (fun v => if v = 2 then ⟨"virtual_A_out_0",.kVirtual,⟨[IOSpec.declare "out" IOSpec.kSizeOne],[],[],[]⟩,
      none,none,.kDefault,[],[]⟩ else dataOp (["A","B"].getD v ""))
    [(0,1,[("out",["in"])]),(0,2,[("out",["out"])])] (by decide) (by decide) (by decide)

theorem fanOutChain_entry_delivered_once :
    ∃ s p, initializeFragment fanOutChain .kDefault = .finished s p ∧ fanOutChain.Acyclic ∧
      Requested fanOutChain 0 "out" 1 "in" ∧ (∀ ts, ("out",ts) ∈ (fanOutChain.portMap 0 1).getD [] → ts.Nodup) ∧
      directPaths p 0 "out" 1 "in" + broadcastPaths p 0 "out" 1 "in" = 1 := by
  have hg : fanOutChain.Acyclic := Digraph.acyclic_of_rank id fun u v h => by
    simp [fanOutChain,OperatorGraph.ofEdges,Digraph.ofEdges,Digraph.Edge] at h
    show u < v
    omega
  have hreq : Requested fanOutChain 0 "out" 1 "in" :=
    ⟨by decide,⟨["in"],by decide,by decide⟩,by decide,by decide,by decide⟩
  have hts : ∀ ts, ("out",ts) ∈ (fanOutChain.portMap 0 1).getD [] → ts.Nodup := fun ts h => by
    have hpm : (fanOutChain.portMap 0 1).getD [] = [("out",["in"])] := by decide
    rw [hpm,List.mem_singleton] at h
    cases h
    decide
  obtain ⟨s,p,hrun⟩ : ∃ s p, initializeFragment fanOutChain .kDefault = .finished s p := ⟨_,_,rfl⟩
  exact ⟨s,p,hrun,hg,hreq,hts,initializeFragment_acyclic_delivers_once hg hrun hreq hts⟩

example : ∃ s p, initializeFragment fanOutChain .kDefault = .finished s p ∧
    directPaths p 0 "out" 1 "in" = 0 ∧ broadcastPaths p 0 "out" 1 "in" = 1 :=
  ⟨_,_,rfl,by decide,by decide⟩

end ExactDelivery
end HoloscanLowering
