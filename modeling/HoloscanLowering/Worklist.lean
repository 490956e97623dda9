import HoloscanLowering.Digraph

/-! The worklist loop of `GXFExecutor::initialize_fragment`: indegree counts, a FIFO of
operators whose indegree reached zero, the `visited_nodes` guard, and the cycle-break refill
that zeroes every nonzero indegree when the worklist runs dry before all operators are visited.
The per-operator work of a visit is a parameter; it never changes the schedule. -/
namespace HoloscanLowering
namespace Worklist

open Digraph

variable {α : Type} [DecidableEq α]

/-- The loop state: `worklist`, `indegrees`, `visited_nodes` with the newest first, and the
operators the cycle-break refill pushed (the code logs each refill once). -/
structure Schedule (α : Type) where
  worklist : List α
  indegrees : α → Int
  visited : List α
  cycleBreaks : List α

variable (g : Digraph α)

/-- Indegrees from `get_previous_nodes`, and the roots in `get_nodes()` order. -/
def initial : Schedule α where
  worklist := g.nodes.filter fun n => (g.prevNodes n).length = 0
  indegrees n := (g.prevNodes n).length
  visited := []
  cycleBreaks := []

/-- The refill of an empty worklist: each operator with a nonzero indegree gets indegree zero
and is pushed, in `get_nodes()` order. -/
def breakCycles : List α → Schedule α → Schedule α
  | [], s => s
  | n::ns, s => breakCycles ns <|
    if s.indegrees n ≠ 0 then
      { s with indegrees := Function.update s.indegrees n 0, worklist := s.worklist++[n],
               cycleBreaks := s.cycleBreaks++[n] }
    else s

/-- The decrement over `get_next_nodes(op)`: an operator whose indegree drops to zero is pushed. -/
def release : List α → Schedule α → Schedule α
  | [], s => s
  | n::ns, s => release ns
    { s with indegrees := Function.update s.indegrees n (s.indegrees n - 1),
             worklist := if s.indegrees n - 1 = 0 then s.worklist++[n] else s.worklist }

inductive Step (α : Type)
  | done
  | popEmpty
  | skip (s : Schedule α)
  | visit (op : α) (s : Schedule α)

/-- The state the pop sees: refilled when the worklist is empty. -/
def refill (s : Schedule α) : Schedule α :=
  if s.worklist = [] then breakCycles g.nodes s else s

/-- `front()`, `pop_front()`, the `visited_nodes` guard, and the decrement after a visit. -/
def visitFront (s : Schedule α) : Step α :=
  match s.worklist with
  | [] => .popEmpty
  | op::rest =>
    if op ∈ s.visited then .skip { s with worklist := rest }
    else .visit op (release (g.nextNodes op) { s with worklist := rest, visited := op::s.visited })

/-- One pass of the `while (true)` body. -/
def step (s : Schedule α) : Step α :=
  if s.worklist = [] ∧ s.visited.length = g.nodes.length then .done else visitFront g (refill g s)

/-- How the loop ends: at `break`, on the `front()` of an empty deque, on an exception or
`return false` from a visit, or when the fuel runs out. -/
inductive Outcome (α σ ε : Type)
  | finished (s : Schedule α) (st : σ)
  | popEmpty
  | failed (e : ε)
  | outOfFuel

/-- The loop with the per-operator work `visit op visited_nodes`, for at most `fuel` passes. -/
def runWith {σ ε : Type} (visit : α → List α → σ → Except ε σ) :
    Nat → Schedule α → σ → Outcome α σ ε
  | 0, _, _ => .outOfFuel
  | fuel+1, s, st =>
    match step g s with
    | .done => .finished s st
    | .popEmpty => .popEmpty
    | .skip s => runWith visit fuel s st
    | .visit op s =>
      match visit op s.visited st with
      | .error e => .failed e
      | .ok st => runWith visit fuel s st

def run (fuel : Nat) (s : Schedule α) : Outcome α Unit Empty :=
  runWith g (fun _ _ _ => .ok ()) fuel s ()

/-- Passes that always suffice: one per possible push, and one for the `break`. -/
def fuelBound : Nat := 2*g.nodes.length + (g.nodes.map fun v => (g.nextNodes v).length).sum + 2

@[simp] theorem run_zero (s : Schedule α) : run g 0 s = .outOfFuel := rfl

theorem run_succ (fuel : Nat) (s : Schedule α) : run g (fuel+1) s =
    match step g s with
    | .done => .finished s ()
    | .popEmpty => .popEmpty
    | .skip s => run g fuel s
    | .visit _ s => run g fuel s := by
  simp only [run,runWith]

/-! ### What the refill and the decrement do -/

variable {g}

theorem breakCycles_eq {l : List α} (hl : l.Nodup) (s : Schedule α) :
    (breakCycles l s).visited = s.visited ∧
    (breakCycles l s).worklist = s.worklist++l.filter (fun n => s.indegrees n ≠ 0) ∧
    (breakCycles l s).cycleBreaks = s.cycleBreaks++l.filter (fun n => s.indegrees n ≠ 0) := by
  induction l generalizing s with
  | nil => simp [breakCycles]
  | cons n ns ih =>
    obtain ⟨hn,hns⟩ := List.nodup_cons.mp hl
    have hsame : ∀ t : Schedule α, ns.filter (fun m => !decide (Function.update t.indegrees n 0 m = 0)) =
        ns.filter (fun m => !decide (t.indegrees m = 0)) :=
      fun t => List.filter_congr fun m hm => by rw [Function.update_noteq (ne_of_mem_of_not_mem hm hn)]
    by_cases h : s.indegrees n ≠ 0 <;>
      simp [breakCycles,h,ih hns,hsame,List.filter_cons]

theorem release_eq {l : List α} (hl : l.Nodup) (s : Schedule α) :
    (release l s).visited = s.visited ∧ (release l s).cycleBreaks = s.cycleBreaks ∧
    (release l s).worklist = s.worklist++l.filter (fun n => s.indegrees n - 1 = 0) ∧
    ∀ v, (release l s).indegrees v = if v ∈ l then s.indegrees v - 1 else s.indegrees v := by
  induction l generalizing s with
  | nil => simp [release]
  | cons n ns ih =>
    obtain ⟨hn,hns⟩ := List.nodup_cons.mp hl
    obtain ⟨h1,h2,h3,h4⟩ := ih hns
      { s with indegrees := Function.update s.indegrees n (s.indegrees n - 1),
               worklist := if s.indegrees n - 1 = 0 then s.worklist++[n] else s.worklist }
    have hsame : ns.filter (fun m => Function.update s.indegrees n (s.indegrees n - 1) m - 1 = 0) =
        ns.filter (fun m => s.indegrees m - 1 = 0) :=
      List.filter_congr fun m hm => by rw [Function.update_noteq (ne_of_mem_of_not_mem hm hn)]
    refine ⟨h1,h2,?_,fun v => ?_⟩
    · rw [release,h3,hsame]
      split_ifs with h <;> simp [List.filter_cons,h]
    · rw [release,h4]
      by_cases hv : v = n
      · subst hv; simp [hn]
      · simp [hv,Function.update_noteq hv]

theorem sum_filter_not_mem_cons (f : α → Nat) {l V : List α} (hl : l.Nodup) {op : α}
    (hop : op ∈ l) (hV : op ∉ V) :
    ((l.filter (· ∉ op::V)).map f).sum + f op = ((l.filter (· ∉ V)).map f).sum := by
  induction l with
  | nil => simp at hop
  | cons x xs ih =>
    obtain ⟨hx,hxs⟩ := List.nodup_cons.mp hl
    by_cases h : x = op
    · subst h
      have hsame : xs.filter (· ∉ x::V) = xs.filter (· ∉ V) :=
        List.filter_congr fun y hy => by simp [ne_of_mem_of_not_mem hy hx]
      rw [List.filter_cons_of_neg (by simp),List.filter_cons_of_pos (by simpa using hV),hsame]
      simp [Nat.add_comm]
    · have hop' : op ∈ xs := (List.mem_cons.mp hop).resolve_left (Ne.symm h)
      have := ih hxs hop'
      by_cases hxV : x ∈ V <;> simp_all [List.filter_cons]
      omega

/-! ### The invariant behind termination -/

variable (g)

/-- Every unvisited operator is queued or still waits on a nonzero indegree; this is what
makes the refill push something whenever it runs. -/
structure Inv (s : Schedule α) : Prop where
  visited_nodup : s.visited.Nodup
  visited_sub : ∀ v ∈ s.visited, v ∈ g.nodes
  worklist_sub : ∀ v ∈ s.worklist, v ∈ g.nodes
  pending : ∀ v ∈ g.nodes, v ∉ s.visited → v ∈ s.worklist ∨ s.indegrees v ≠ 0

def AllQueued (s : Schedule α) : Prop := ∀ v ∈ g.nodes, v ∉ s.visited → v ∈ s.worklist

instance (s : Schedule α) : Decidable (AllQueued g s) :=
  inferInstanceAs (Decidable (∀ v ∈ g.nodes, _))

def pendingOut (s : Schedule α) : Nat :=
  ((g.nodes.filter (· ∉ s.visited)).map fun v => (g.nextNodes v).length).sum

/-- Pushes still possible: queued entries, one per out-edge of an unvisited operator, and a
whole refill unless every unvisited operator is queued. -/
def potential (s : Schedule α) : Nat :=
  s.worklist.length + pendingOut g s + if AllQueued g s then 0 else g.nodes.length + 1

variable {g}

theorem Inv.exists_unvisited {s : Schedule α} (hs : Inv g s)
    (hlen : s.visited.length ≠ g.nodes.length) : ∃ v ∈ g.nodes, v ∉ s.visited := by
  by_contra h
  push_neg at h
  exact hlen (le_antisymm (List.subperm_of_subset hs.visited_nodup hs.visited_sub).length_le
    (List.subperm_of_subset g.nodes_nodup h).length_le)

omit [DecidableEq α] in
theorem Inv.perm_of_length {s : Schedule α} (hs : Inv g s)
    (hlen : s.visited.length = g.nodes.length) : s.visited.Perm g.nodes :=
  (List.subperm_of_subset hs.visited_nodup hs.visited_sub).perm_of_length_le hlen.ge

theorem Inv.refill_spec {s : Schedule α} (hs : Inv g s)
    (hgo : ¬(s.worklist = [] ∧ s.visited.length = g.nodes.length)) :
    Inv g (refill g s) ∧ (refill g s).visited = s.visited ∧ (refill g s).worklist ≠ [] ∧
      potential g (refill g s) ≤ potential g s := by
  by_cases he : s.worklist = []
  · have hlen : s.visited.length ≠ g.nodes.length := fun h => hgo ⟨he,h⟩
    obtain ⟨hv,hw,-⟩ := breakCycles_eq g.nodes_nodup s
    simp only [Worklist.refill,he,if_true]
    have hq : ∀ v ∈ g.nodes, v ∉ s.visited → v ∈ (breakCycles g.nodes s).worklist := by
      intro v hv' hnv
      have := hs.pending v hv' hnv
      simp_all
    obtain ⟨v,hvn,hvv⟩ := hs.exists_unvisited hlen
    refine ⟨⟨?_,?_,?_,?_⟩,hv,?_,?_⟩
    · rw [hv]; exact hs.visited_nodup
    · rw [hv]; exact hs.visited_sub
    · intro x hx; simp_all
    · intro x hx hnx; exact Or.inl (hq x hx (hv ▸ hnx))
    · exact List.ne_nil_of_mem (hq v hvn hvv)
    · have hall : AllQueued g (breakCycles g.nodes s) := fun x hx hnx => hq x hx (hv ▸ hnx)
      have hnot : ¬AllQueued g s := fun h => by simpa [he] using h v hvn hvv
      have hlen' : (breakCycles g.nodes s).worklist.length ≤ g.nodes.length := by
        rw [hw,he]; exact List.length_filter_le _ _
      simp only [potential,pendingOut,hv,hall,hnot,if_true,if_false,he,List.length_nil]
      omega
  · rw [show refill g s = s from if_neg he]
    exact ⟨hs,rfl,he,le_rfl⟩

/-! ### One pass of the loop -/

theorem step_eq_done {s : Schedule α} (h : step g s = .done) :
    s.worklist = [] ∧ s.visited.length = g.nodes.length := by
  unfold step visitFront at h
  split_ifs at h with hd
  · exact hd
  · split at h
    · cases h
    · split_ifs at h

theorem step_eq_visitFront {s : Schedule α} {r : Step α} (h : step g s = r) (hr : r ≠ .done) :
    ¬(s.worklist = [] ∧ s.visited.length = g.nodes.length) ∧ visitFront g (refill g s) = r := by
  unfold step at h
  split_ifs at h with hd
  · exact absurd h.symm hr
  · exact ⟨hd,h⟩

theorem visitFront_eq_skip {s s' : Schedule α} (h : visitFront g s = .skip s') :
    ∃ op rest, s.worklist = op::rest ∧ op ∈ s.visited ∧ s' = { s with worklist := rest } := by
  unfold visitFront at h
  split at h
  · cases h
  · rename_i op rest hw
    split_ifs at h with hv
    cases h
    exact ⟨op,rest,hw,hv,rfl⟩

theorem visitFront_eq_visit {s s' : Schedule α} {op : α} (h : visitFront g s = .visit op s') :
    ∃ rest, s.worklist = op::rest ∧ op ∉ s.visited ∧
      s' = release (g.nextNodes op) { s with worklist := rest, visited := op::s.visited } := by
  unfold visitFront at h
  split at h
  · cases h
  · rename_i op' rest hw
    split_ifs at h with hv
    cases h
    exact ⟨rest,hw,hv,rfl⟩

theorem visitFront_ne_popEmpty {s : Schedule α} (h : s.worklist ≠ []) : visitFront g s ≠ .popEmpty := by
  unfold visitFront
  split
  · contradiction
  · split_ifs <;> simp

theorem refill_term_le {s t : Schedule α} (h : AllQueued g s → AllQueued g t) :
    (if AllQueued g t then 0 else g.nodes.length+1) ≤
      (if AllQueued g s then 0 else g.nodes.length+1) := by
  by_cases hs : AllQueued g s
  · simp [hs,h hs]
  · simp only [hs,if_false]; split_ifs <;> omega

theorem Inv.pop_visited {s : Schedule α} (hs : Inv g s) {op : α} {rest : List α}
    (hw : s.worklist = op::rest) (hop : op ∈ s.visited) :
    Inv g { s with worklist := rest } ∧ potential g { s with worklist := rest } < potential g s := by
  have hrest : ∀ v ∈ g.nodes, v ∉ s.visited → v ∈ s.worklist → v ∈ rest := fun v _ hv hvw => by
    rw [hw] at hvw
    exact (List.mem_cons.mp hvw).resolve_left (fun h => hv (h ▸ hop))
  refine ⟨⟨hs.visited_nodup,hs.visited_sub,fun v hv => hs.worklist_sub v (by simp [hw,hv]),
    fun v hv hnv => (hs.pending v hv hnv).imp_left (hrest v hv hnv)⟩,?_⟩
  have hF := refill_term_le (g := g) (s := s) (t := { s with worklist := rest })
    fun h v hv hnv => hrest v hv hnv (h v hv hnv)
  simp only [potential,pendingOut,hw,List.length_cons] at hF ⊢
  omega

theorem Inv.pop_unvisited {s : Schedule α} (hs : Inv g s) {op : α} {rest : List α}
    (hw : s.worklist = op::rest) (hop : op ∉ s.visited) :
    Inv g (release (g.nextNodes op) { s with worklist := rest, visited := op::s.visited }) ∧
      potential g (release (g.nextNodes op) { s with worklist := rest, visited := op::s.visited }) <
        potential g s := by
  obtain ⟨hv,-,hwl,hind⟩ := release_eq (g.next_nodup op) { s with worklist := rest, visited := op::s.visited }
  have hopn : op ∈ g.nodes := hs.worklist_sub op (by simp [hw])
  have hrest : ∀ v ∈ g.nodes, v ∉ op::s.visited → v ∈ s.worklist → v ∈ rest := fun v _ hv hvw => by
    rw [hw] at hvw
    exact (List.mem_cons.mp hvw).resolve_left (fun h => hv (h ▸ List.mem_cons_self _ _))
  refine ⟨⟨?_,?_,?_,?_⟩,?_⟩
  · rw [hv]; exact List.nodup_cons.mpr ⟨hop,hs.visited_nodup⟩
  · rw [hv]; intro v hv'
    rcases List.mem_cons.mp hv' with rfl | hv'
    · exact hopn
    · exact hs.visited_sub v hv'
  · rw [hwl]; intro v hv'
    rcases List.mem_append.mp hv' with hv' | hv'
    · exact hs.worklist_sub v (by simp [hw,hv'])
    · exact (g.mem_nodes (List.mem_of_mem_filter hv')).2
  · rw [hv,hwl]; intro v hvn hnv
    rcases hs.pending v hvn (fun h => hnv (List.mem_cons_of_mem _ h)) with hq | hd
    · exact Or.inl (List.mem_append_left _ (hrest v hvn hnv hq))
    · rw [hind v]
      by_cases hn : v ∈ g.nextNodes op
      · by_cases hz : s.indegrees v - 1 = 0
        · exact Or.inl (List.mem_append_right _ (List.mem_filter.mpr ⟨hn,by simpa using hz⟩))
        · exact Or.inr (by simpa [hn] using hz)
      · exact Or.inr (by simpa [hn] using hd)
  · have hF := refill_term_le (g := g) (s := s)
      (t := release (g.nextNodes op) { s with worklist := rest, visited := op::s.visited })
      fun h v hvn hnv => by
        rw [hv] at hnv; rw [hwl]
        exact List.mem_append_left _ (hrest v hvn hnv (h v hvn fun h' => hnv (List.mem_cons_of_mem _ h')))
    have hsum := sum_filter_not_mem_cons (fun v => (g.nextNodes v).length) g.nodes_nodup hopn hop
    have hlen := List.length_filter_le (fun n => s.indegrees n - 1 = 0) (g.nextNodes op)
    simp only [potential,pendingOut,hv,hwl,hw,List.length_append,List.length_cons] at hF hsum ⊢
    omega

theorem Inv.step_preserves {s s' : Schedule α} (hs : Inv g s)
    (h : step g s = .skip s' ∨ ∃ op, step g s = .visit op s') :
    Inv g s' ∧ potential g s' < potential g s := by
  rcases h with h | ⟨op,h⟩
  · obtain ⟨hd,h⟩ := step_eq_visitFront h (by simp)
    obtain ⟨hr,hrv,-,hp⟩ := hs.refill_spec hd
    obtain ⟨op,rest,hw,hv,rfl⟩ := visitFront_eq_skip h
    obtain ⟨h1,h2⟩ := hr.pop_visited hw hv
    exact ⟨h1,h2.trans_le hp⟩
  · obtain ⟨hd,h⟩ := step_eq_visitFront h (by simp)
    obtain ⟨hr,hrv,-,hp⟩ := hs.refill_spec hd
    obtain ⟨rest,hw,hv,rfl⟩ := visitFront_eq_visit h
    obtain ⟨h1,h2⟩ := hr.pop_unvisited hw hv
    exact ⟨h1,h2.trans_le hp⟩

theorem Inv.step_ne_popEmpty {s : Schedule α} (hs : Inv g s) : step g s ≠ .popEmpty := fun h => by
  obtain ⟨hd,h⟩ := step_eq_visitFront h (by simp)
  exact visitFront_ne_popEmpty (hs.refill_spec hd).2.2.1 h

/-- Runs from an invariant state end at `break` within `potential + 1` passes, and any
property that every pass keeps holds at the end. -/
theorem Inv.run_finished {P : Schedule α → Prop}
    (hP : ∀ s s', Inv g s → P s → (step g s = .skip s' ∨ ∃ op, step g s = .visit op s') → P s')
    {s : Schedule α} (hs : Inv g s) (hPs : P s) {fuel : Nat} (hf : potential g s < fuel) :
    ∃ s', run g fuel s = .finished s' () ∧ Inv g s' ∧ P s' ∧ s'.worklist = [] ∧
      s'.visited.length = g.nodes.length := by
  induction fuel generalizing s with
  | zero => omega
  | succ fuel ih =>
    rw [run_succ]
    cases h : step g s with
    | done => exact ⟨s,rfl,hs,hPs,step_eq_done h⟩
    | popEmpty => exact absurd h hs.step_ne_popEmpty
    | skip s' =>
      obtain ⟨hs',hp⟩ := hs.step_preserves (.inl h)
      exact ih hs' (hP s s' hs hPs (.inl h)) (by omega)
    | visit op s' =>
      obtain ⟨hs',hp⟩ := hs.step_preserves (.inr ⟨op,h⟩)
      exact ih hs' (hP s s' hs hPs (.inr ⟨op,h⟩)) (by omega)

theorem inv_initial : Inv g (initial g) where
  visited_nodup := List.nodup_nil
  visited_sub := by simp [initial]
  worklist_sub _ h := (List.mem_filter.mp h).1
  pending v hv _ := by
    by_cases h : (g.prevNodes v).length = 0
    · exact Or.inl (List.mem_filter.mpr ⟨hv,by simpa using h⟩)
    · exact Or.inr (by simpa [initial] using h)

theorem potential_initial_lt : potential g (initial g) < fuelBound g := by
  have hw : (initial g).worklist.length ≤ g.nodes.length := List.length_filter_le _ _
  have hF : (if AllQueued g (initial g) then 0 else g.nodes.length+1) ≤ g.nodes.length+1 := by
    split_ifs <;> omega
  have hP : pendingOut g (initial g) = (g.nodes.map fun v => (g.nextNodes v).length).sum := by
    simp [pendingOut,initial]
  simp only [potential,fuelBound,hP] at hw hF ⊢
  omega

/-! ### Without cycles the refill never runs -/

variable (g)

/-- Every operator in `visited` (newest first) came after all of its predecessors. -/
def Topo : List α → Prop
  | [] => True
  | v::vs => (∀ u ∈ g.prevNodes v, u ∈ vs) ∧ Topo vs

/-- Indegrees count the unvisited predecessors, and queued operators have all their
predecessors visited: true until the first refill. -/
structure Counted (s : Schedule α) : Prop where
  indegree : ∀ v, s.indegrees v =
    (g.prevNodes v).length - ((g.prevNodes v).filter (· ∈ s.visited)).length
  ready : ∀ v ∈ s.worklist, ∀ u ∈ g.prevNodes v, u ∈ s.visited

/-- Before any refill, the visits so far are in topological order. -/
structure KahnInv (s : Schedule α) : Prop where
  no_breaks : s.cycleBreaks = []
  counted : Counted g s
  topo : Topo g s.visited

variable {g}

omit [DecidableEq α] in
theorem Topo.sublist {l : List α} (h : Topo g l) {u v : α} (hv : v ∈ l) (hu : u ∈ g.prevNodes v) :
    [v,u].Sublist l := by
  induction l with
  | nil => simp at hv
  | cons w ws ih =>
    rcases List.mem_cons.mp hv with rfl | hv
    · exact (List.singleton_sublist.mpr (h.1 u hu)).cons₂ v
    · exact (ih h.2 hv).cons w

theorem length_filter_mem_cons {l V : List α} (hl : l.Nodup) {op : α} (hop : op ∉ V) :
    (l.filter (· ∈ op::V)).length = (l.filter (· ∈ V)).length + if op ∈ l then 1 else 0 := by
  induction l with
  | nil => simp
  | cons x xs ih =>
    obtain ⟨hx,hxs⟩ := List.nodup_cons.mp hl
    have := ih hxs
    by_cases h : x = op
    · subst h; simp_all [List.filter_cons]
    · by_cases hxV : x ∈ V <;> simp_all [List.filter_cons,Ne.symm h]
      omega

theorem counted_initial : Counted g (initial g) where
  indegree v := by simp [initial]
  ready v hv u hu := by
    have := (List.mem_filter.mp hv).2
    simp only [decide_eq_true_eq,List.length_eq_zero] at this
    simp [this] at hu

theorem Counted.pop_visited {s : Schedule α} (hc : Counted g s) {op : α} {rest : List α}
    (hw : s.worklist = op::rest) : Counted g { s with worklist := rest } :=
  ⟨hc.indegree,fun v hv => hc.ready v (by simp [hw,hv])⟩

theorem Counted.pop_unvisited {s : Schedule α} (hc : Counted g s) {op : α} {rest : List α}
    (hw : s.worklist = op::rest) (hv : op ∉ s.visited) :
    Counted g (release (g.nextNodes op) { s with worklist := rest, visited := op::s.visited }) := by
  obtain ⟨hvis,-,hwl,hind⟩ := release_eq (g.next_nodup op)
    { s with worklist := rest, visited := op::s.visited }
  have hcount : ∀ v, ((g.prevNodes v).filter (· ∈ op::s.visited)).length =
      ((g.prevNodes v).filter (· ∈ s.visited)).length + if v ∈ g.nextNodes op then 1 else 0 :=
    fun v => by rw [length_filter_mem_cons (g.prev_nodup v) hv]; simp [g.mem_prev]
  refine ⟨fun v => ?_,fun v hvw u hu => ?_⟩
  · rw [hind v,hvis,hcount v,hc.indegree v]
    split_ifs <;> push_cast <;> omega
  · rw [hvis]
    rw [hwl] at hvw
    rcases List.mem_append.mp hvw with hvw | hvw
    · exact List.mem_cons_of_mem _ (hc.ready v (by simp [hw,hvw]) u hu)
    · obtain ⟨hn,hz⟩ := List.mem_filter.mp hvw
      have hz : s.indegrees v - 1 = 0 := by simpa using hz
      rw [hc.indegree v] at hz
      have hall : ((g.prevNodes v).filter (· ∈ op::s.visited)).length = (g.prevNodes v).length := by
        rw [hcount v,if_pos hn]; omega
      simpa using List.filter_length_eq_length.mp hall u hu

theorem Counted.unvisited_pred {s : Schedule α} (hs : Inv g s) (hc : Counted g s)
    (he : s.worklist = []) {y : α} (hy : y ∈ g.nodes) (hyv : y ∉ s.visited) :
    ∃ p ∈ g.prevNodes y, p ∉ s.visited := by
  have hne := (hs.pending y hy hyv).resolve_left (by simp [he])
  rw [hc.indegree y] at hne
  by_contra hc'
  push_neg at hc'
  have hall : ((g.prevNodes y).filter (· ∈ s.visited)).length = (g.prevNodes y).length :=
    List.filter_length_eq_length.mpr fun a ha => by simpa using hc' a ha
  rw [hall] at hne
  simp at hne

theorem KahnInv.refill_eq (hg : g.Acyclic) {s : Schedule α} (hs : Inv g s) (hk : KahnInv g s)
    (hd : ¬(s.worklist = [] ∧ s.visited.length = g.nodes.length)) : refill g s = s := by
  by_cases he : s.worklist = []
  · have hlen : s.visited.length ≠ g.nodes.length := fun h => hd ⟨he,h⟩
    have hclosed : ∀ y ∈ g.nodes.filter (· ∉ s.visited),
        ∃ p ∈ g.nodes.filter (· ∉ s.visited), g.Edge p y := by
      intro y hy
      obtain ⟨hyn,hyv⟩ := List.mem_filter.mp hy
      obtain ⟨p,hp,hpv⟩ := hk.counted.unvisited_pred hs he hyn (by simpa using hyv)
      exact ⟨p,List.mem_filter.mpr ⟨(prev_mem_nodes hp).1,by simpa using hpv⟩,edge_of_mem_prev hp⟩
    obtain ⟨v,hvn,hvv⟩ := hs.exists_unvisited hlen
    have := hg.eq_nil_of_pred_closed hclosed
    simp only [List.filter_eq_nil_iff,decide_eq_true_eq,not_not] at this
    exact absurd (this v hvn) hvv
  · exact if_neg he

theorem KahnInv.step_preserves (hg : g.Acyclic) {s s' : Schedule α} (hs : Inv g s)
    (hk : KahnInv g s) (h : step g s = .skip s' ∨ ∃ op, step g s = .visit op s') : KahnInv g s' := by
  rcases h with h | ⟨op,h⟩
  · obtain ⟨hd,h⟩ := step_eq_visitFront h (by simp)
    rw [hk.refill_eq hg hs hd] at h
    obtain ⟨op,rest,hw,-,rfl⟩ := visitFront_eq_skip h
    exact ⟨hk.no_breaks,hk.counted.pop_visited hw,hk.topo⟩
  · obtain ⟨hd,h⟩ := step_eq_visitFront h (by simp)
    rw [hk.refill_eq hg hs hd] at h
    obtain ⟨rest,hw,hv,rfl⟩ := visitFront_eq_visit h
    obtain ⟨hvis,hbr,-,-⟩ := release_eq (g.next_nodup op)
      { s with worklist := rest, visited := op::s.visited }
    refine ⟨hbr.trans hk.no_breaks,hk.counted.pop_unvisited hw hv,?_⟩
    rw [hvis]
    exact ⟨hk.counted.ready op (by simp [hw]),hk.topo⟩

/-- `initialize_fragment`'s worklist loop ends at `break` within `fuelBound` passes on every
graph, never pops an empty worklist, and initializes every operator exactly once; on an
acyclic graph the cycle-break refill never runs and operators are initialized in
topological order. -/
theorem initialize_fragment_visits_each_once :
    ∃ s, run g (fuelBound g) (initial g) = .finished s () ∧ s.visited.reverse.Perm g.nodes ∧
      (g.Acyclic → s.cycleBreaks = [] ∧ ∀ u v, g.Edge u v → [u,v].Sublist s.visited.reverse) := by
  obtain ⟨s,hrun,hs,hk,-,hlen⟩ := (inv_initial (g := g)).run_finished (P := fun s => g.Acyclic → KahnInv g s)
    (fun _ _ hs hk h hg => (hk hg).step_preserves hg hs h) (fun _ => ⟨rfl,counted_initial,trivial⟩) potential_initial_lt
  refine ⟨s,hrun,(List.reverse_perm _).trans (hs.perm_of_length hlen),fun hg => ⟨(hk hg).no_breaks,?_⟩⟩
  intro u v he
  have hv : v ∈ s.visited := (hs.perm_of_length hlen).mem_iff.mpr (g.mem_nodes he).2
  simpa using ((hk hg).topo.sublist hv (g.mem_prev.mpr he)).reverse

/-! ### The per-visit work runs on the schedule -/

theorem visited_of_run_initial {s : Schedule α} (h : run g (fuelBound g) (initial g) = .finished s ()) :
    s.visited.Nodup ∧ ∀ v ∈ g.nodes, v ∈ s.visited := by
  obtain ⟨s',h',hs,-,-,hlen⟩ := (inv_initial (g := g)).run_finished (P := fun _ => True)
    (fun _ _ _ _ _ => trivial) trivial potential_initial_lt
  rw [h] at h'
  cases h'
  exact ⟨hs.visited_nodup,fun v hv => (hs.perm_of_length hlen).mem_iff.mpr hv⟩

theorem topo_of_run_initial (hg : g.Acyclic) {s : Schedule α}
    (h : run g (fuelBound g) (initial g) = .finished s ()) : Topo g s.visited := by
  obtain ⟨s',h',hs,hk,-,-⟩ := (inv_initial (g := g)).run_finished (P := fun s => g.Acyclic → KahnInv g s)
    (fun _ _ hs hk h hg => (hk hg).step_preserves hg hs h) (fun _ => ⟨rfl,counted_initial,trivial⟩)
    potential_initial_lt
  rw [h] at h'
  cases h'
  exact (hk hg).topo

/-- `Q v older` at each entry `v` of a visited list (newest first), `older` the entries
visited before `v`. -/
def EachVisit (Q : α → List α → Prop) : List α → Prop
  | [] => True
  | v::vs => Q v vs ∧ EachVisit Q vs

omit [DecidableEq α] in
theorem EachVisit.of_eq_append {Q : α → List α → Prop} {L L₁ older : List α} {v : α}
    (h : EachVisit Q L) (hL : L = L₁ ++ v::older) : Q v older := by
  subst hL
  induction L₁ with
  | nil => exact h.1
  | cons _ _ ih => exact ih h.2

omit [DecidableEq α] in
theorem EachVisit.imp {Q Q' : α → List α → Prop} {L : List α} (h : EachVisit Q L)
    (hQ : ∀ v vs, v ∈ L → Q v vs → Q' v vs) : EachVisit Q' L := by
  induction L with
  | nil => trivial
  | cons v vs ih =>
    exact ⟨hQ v vs (List.mem_cons_self _ _) h.1,ih h.2 fun w ws hw => hQ w ws (List.mem_cons_of_mem _ hw)⟩

omit [DecidableEq α] in
theorem exists_oldest {c L : List α} (h : ∃ x ∈ c, x ∈ L) :
    ∃ L₁ v older, L = L₁ ++ v::older ∧ v ∈ c ∧ ∀ u ∈ c, u ∉ older := by
  induction L with
  | nil => simp at h
  | cons w ws ih =>
    by_cases hws : ∃ x ∈ c, x ∈ ws
    · obtain ⟨L₁,v,older,rfl,hv,hold⟩ := ih hws
      exact ⟨w::L₁,v,older,rfl,hv,hold⟩
    · obtain ⟨x,hx,hxL⟩ := h
      have hxw : x = w := (List.mem_cons.mp hxL).resolve_right fun h => hws ⟨x,hx,h⟩
      exact ⟨[],w,ws,rfl,hxw ▸ hx,fun u hu hu' => hws ⟨u,hu,hu'⟩⟩

theorem refill_visited (s : Schedule α) : (refill g s).visited = s.visited := by
  unfold refill
  split_ifs
  · exact (breakCycles_eq g.nodes_nodup s).1
  · rfl

theorem step_skip_visited {s s' : Schedule α} (h : step g s = .skip s') : s'.visited = s.visited := by
  obtain ⟨-,h⟩ := step_eq_visitFront h (by simp)
  obtain ⟨op,rest,-,-,rfl⟩ := visitFront_eq_skip h
  exact refill_visited s

theorem step_visit_visited {s s' : Schedule α} {op : α} (h : step g s = .visit op s') :
    op ∉ s.visited ∧ s'.visited = op::s.visited := by
  obtain ⟨-,h⟩ := step_eq_visitFront h (by simp)
  obtain ⟨rest,-,hv,rfl⟩ := visitFront_eq_visit h
  rw [refill_visited] at hv
  exact ⟨hv,by rw [(release_eq (g.next_nodup op) _).1,refill_visited]⟩

theorem runWith_run {σ ε : Type} {act : α → List α → σ → Except ε σ} {fuel : Nat}
    {s s' : Schedule α} {st st' : σ} (h : runWith g act fuel s st = .finished s' st') :
    run g fuel s = .finished s' () := by
  induction fuel generalizing s st with
  | zero => cases h
  | succ fuel ih =>
    rw [run_succ]
    unfold runWith at h
    cases hs : step g s with
    | done => simp only [hs] at h; cases h; rfl
    | popEmpty => simp only [hs] at h; cases h
    | skip s₁ => simp only [hs] at h; exact ih h
    | visit op s₁ =>
      simp only [hs] at h
      split at h
      · cases h
      · exact ih h

section RunWith

variable {σ ε : Type} {act : α → List α → σ → Except ε σ} (I : List α → σ → Prop)
  (hI : ∀ op vis st st', op ∈ g.nodes → op ∉ vis → act op (op::vis) st = .ok st' → I vis st →
    I (op::vis) st')
include hI

/-- What each visit keeps, for the visited list it extends, holds at the end of a run, and a
run that fails does so in a visit from a state where it holds. -/
theorem runWith_inv {fuel : Nat} {s : Schedule α} {st : σ} (hinv : Inv g s) (hs : I s.visited st) :
    (∀ s' st', runWith g act fuel s st = .finished s' st' → I s'.visited st') ∧
      ∀ e, runWith g act fuel s st = .failed e →
        ∃ op vis st₁, op ∈ g.nodes ∧ op ∉ vis ∧ I vis st₁ ∧ act op (op::vis) st₁ = .error e := by
  induction fuel generalizing s st with
  | zero => exact ⟨nofun,nofun⟩
  | succ fuel ih =>
    unfold runWith
    cases hst : step g s with
    | done => exact ⟨fun _ _ h => by cases h; exact hs,nofun⟩
    | popEmpty => exact ⟨nofun,nofun⟩
    | skip s₁ => exact ih (hinv.step_preserves (.inl hst)).1 (step_skip_visited hst ▸ hs)
    | visit op s₁ =>
      obtain ⟨hop,hv⟩ := step_visit_visited hst
      have hinv₁ := (hinv.step_preserves (.inr ⟨op,hst⟩)).1
      have hmem : op ∈ g.nodes := hinv₁.visited_sub op (by simp [hv])
      dsimp only
      rw [hv]
      cases hact : act op (op::s.visited) st with
      | error e => exact ⟨nofun,fun _ h => by cases h; exact ⟨op,s.visited,st,hmem,hop,hs,hact⟩⟩
      | ok st₁ => exact ih hinv₁ (hv ▸ hI op s.visited st st₁ hmem hop hact hs)

theorem runWith_invariant {fuel : Nat} {s s' : Schedule α} {st st' : σ}
    (h : runWith g act fuel s st = .finished s' st') (hinv : Inv g s) (hs : I s.visited st) :
    I s'.visited st' :=
  (runWith_inv I hI hinv hs).1 s' st' h

theorem runWith_failed {fuel : Nat} {s : Schedule α} {st : σ} {e : ε}
    (h : runWith g act fuel s st = .failed e) (hinv : Inv g s) (hs : I s.visited st) :
    ∃ op vis st₁, op ∈ g.nodes ∧ op ∉ vis ∧ I vis st₁ ∧ act op (op::vis) st₁ = .error e :=
  (runWith_inv I hI hinv hs).2 e h

end RunWith

/-! ### Which predecessors the cycle check can find unvisited -/

variable (g)

/-- For each operator in `visited` (newest first), every predecessor that is the operator
itself or was not visited before it is reachable from a directed cycle. -/
def LateFromCycle : List α → Prop :=
  EachVisit fun v vs => ∀ u ∈ g.prevNodes v, (u = v ∨ u ∉ vs) → g.FromCycle u

/-- Before the first refill the counts are exact; after it every unvisited operator is
reachable from a cycle; and every predecessor found unvisited so far was. -/
structure CycleInv (s : Schedule α) : Prop where
  before : s.cycleBreaks = [] → Counted g s
  after : s.cycleBreaks ≠ [] → ∀ y ∈ g.nodes, y ∉ s.visited → g.FromCycle y
  late : LateFromCycle g s.visited

variable {g}

omit [DecidableEq α] in
theorem fromCycle_self {u : α} (h : u ∈ g.prevNodes u) : g.FromCycle u :=
  ⟨u,Relation.TransGen.single (edge_of_mem_prev h),Relation.ReflTransGen.refl⟩

theorem CycleInv.refill_spec {s : Schedule α} (hs : Inv g s) (hc : CycleInv g s)
    (hd : ¬(s.worklist = [] ∧ s.visited.length = g.nodes.length)) :
    ((refill g s).cycleBreaks = [] → Counted g (refill g s)) ∧
      ((refill g s).cycleBreaks ≠ [] → ∀ y ∈ g.nodes, y ∉ (refill g s).visited → g.FromCycle y) := by
  by_cases he : s.worklist = []
  · obtain ⟨-,hw,hb⟩ := breakCycles_eq g.nodes_nodup s
    have hne : (refill g s).worklist ≠ [] := (hs.refill_spec hd).2.2.1
    simp only [Worklist.refill,he,if_true,List.nil_append] at hne ⊢
    rw [hw,he,List.nil_append] at hne
    rw [hb,(breakCycles_eq g.nodes_nodup s).1]
    refine ⟨fun h => absurd (List.append_eq_nil.mp h).2 hne,fun _ => ?_⟩
    by_cases hcb : s.cycleBreaks = []
    · intro y hy hyv
      have hclosed : ∀ y ∈ g.nodes.filter (· ∉ s.visited),
          ∃ p ∈ g.nodes.filter (· ∉ s.visited), g.Edge p y := by
        intro y hy
        obtain ⟨hyn,hyv⟩ := List.mem_filter.mp hy
        obtain ⟨p,hp,hpv⟩ := (hc.before hcb).unvisited_pred hs he hyn (by simpa using hyv)
        exact ⟨p,List.mem_filter.mpr ⟨(prev_mem_nodes hp).1,by simpa using hpv⟩,edge_of_mem_prev hp⟩
      exact fromCycle_of_pred_closed hclosed (List.mem_filter.mpr ⟨hy,by simpa using hyv⟩)
    · exact hc.after hcb
  · rw [show refill g s = s from if_neg he]
    exact ⟨hc.before,hc.after⟩

theorem CycleInv.step_preserves {s s' : Schedule α} (hs : Inv g s) (hc : CycleInv g s)
    (h : step g s = .skip s' ∨ ∃ op, step g s = .visit op s') : CycleInv g s' := by
  rcases h with h | ⟨op,h⟩
  · obtain ⟨hd,h⟩ := step_eq_visitFront h (by simp)
    obtain ⟨hbefore,hafter⟩ := hc.refill_spec hs hd
    have hlate := refill_visited (g := g) s ▸ hc.late
    obtain ⟨op,rest,hw,-,rfl⟩ := visitFront_eq_skip h
    exact ⟨fun hb => (hbefore hb).pop_visited hw,hafter,hlate⟩
  · obtain ⟨hd,h⟩ := step_eq_visitFront h (by simp)
    obtain ⟨hbefore,hafter⟩ := hc.refill_spec hs hd
    have hlate := refill_visited (g := g) s ▸ hc.late
    obtain ⟨rest,hw,hv,rfl⟩ := visitFront_eq_visit h
    obtain ⟨hvis,hbr,-,-⟩ := release_eq (g.next_nodup op)
      { refill g s with worklist := rest, visited := op::(refill g s).visited }
    refine ⟨fun hb => (hbefore (hbr ▸ hb)).pop_unvisited hw hv,fun hb y hy hyv => ?_,?_⟩
    · rw [hvis] at hyv
      exact hafter (hbr ▸ hb) y hy fun h' => hyv (List.mem_cons_of_mem _ h')
    · rw [hvis]
      refine ⟨fun u hu hlate' => ?_,hlate⟩
      rcases hlate' with rfl | hnv
      · exact fromCycle_self hu
      · by_cases hb : (refill g s).cycleBreaks = []
        · exact absurd ((hbefore hb).ready op (by simp [hw]) u hu) hnv
        · exact hafter hb u (prev_mem_nodes hu).1 hnv

omit [DecidableEq α] in
theorem LateFromCycle.of_not_mem {L : List α} (h : LateFromCycle g L) {x u : α} (hx : x ∈ L)
    (hu : u ∉ L) (hp : u ∈ g.prevNodes x) : g.FromCycle u := by
  induction L with
  | nil => simp at hx
  | cons z zs ih =>
    rcases List.mem_cons.mp hx with rfl | hx
    · exact h.1 u hp (.inr fun h' => hu (List.mem_cons_of_mem _ h'))
    · exact ih h.2 hx fun h' => hu (List.mem_cons_of_mem _ h')

omit [DecidableEq α] in
theorem LateFromCycle.of_sublist {L : List α} (h : LateFromCycle g L) (hL : L.Nodup) {x u : α}
    (hs : [u,x].Sublist L) (hp : u ∈ g.prevNodes x) : g.FromCycle u := by
  induction L with
  | nil => cases hs
  | cons w ws ih =>
    obtain ⟨hw,hws⟩ := List.nodup_cons.mp hL
    cases hs with
    | cons _ hs => exact ih h.2 hws hs
    | cons₂ _ hs => exact LateFromCycle.of_not_mem h.2 (List.singleton_sublist.mp hs) hw hp

/-- The cycle check of `initialize_fragment` fires at `x` for a predecessor `u` that is `x`
itself or is initialized after `x`. Every such `u` is reachable from a directed cycle, but
`x` need not lie on one: the refill also releases operators downstream of a cycle. -/
theorem late_predecessor_from_cycle :
    ∃ s, run g (fuelBound g) (initial g) = .finished s () ∧
      ∀ x u, u ∈ g.prevNodes x → (u = x ∨ [x,u].Sublist s.visited.reverse) → g.FromCycle u := by
  obtain ⟨s,hrun,hs,hc,-,-⟩ := (inv_initial (g := g)).run_finished (P := CycleInv g)
    (fun _ _ hs hc h => hc.step_preserves hs h)
    ⟨fun _ => counted_initial,fun h => absurd rfl h,trivial⟩ potential_initial_lt
  refine ⟨s,hrun,fun x u hp hxu => ?_⟩
  rcases hxu with rfl | hxu
  · exact fromCycle_self hp
  · exact hc.late.of_sublist hs.visited_nodup (by simpa using List.reverse_sublist.mpr hxu) hp

end Worklist
end HoloscanLowering
