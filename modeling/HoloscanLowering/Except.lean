import Mathlib

/-! Inversion of the `Except` steps the lowering is written with: what a bind, a `mapM` and a
`foldlM` that succeed or fail were made of. Every step function of the model is peeled apart
with these, never by unfolding the monad. -/
namespace HoloscanLowering

theorem bind_eq_ok {β γ ε : Type} (x : Except ε β) (f : β → Except ε γ) (c : γ) :
    (x >>= f) = .ok c ↔ ∃ b, x = .ok b ∧ f b = .ok c := by
  cases x <;> simp [Bind.bind,Except.bind]

theorem bind_eq_error {β γ ε : Type} (x : Except ε β) (f : β → Except ε γ) (e : ε) :
    (x >>= f) = .error e ↔ x = .error e ∨ ∃ b, x = .ok b ∧ f b = .error e := by
  cases x <;> simp [Bind.bind,Except.bind]

theorem map_eq_error {β γ ε : Type} (f : β → γ) (x : Except ε β) (e : ε) :
    x.map f = .error e ↔ x = .error e := by
  cases x <;> simp [Except.map]

theorem mapError_eq_ok {β ε ε' : Type} (f : ε → ε') (x : Except ε β) (b : β) :
    x.mapError f = .ok b ↔ x = .ok b := by
  cases x <;> simp [Except.mapError]

theorem pure_eq_ok {β ε : Type} (a c : β) : (pure a : Except ε β) = .ok c ↔ a = c := by
  simp [pure,Except.pure]

theorem bind_unit_eq_ok {γ ε : Type} (x : Except ε Unit) (f : Unit → Except ε γ) (c : γ) :
    (x >>= f) = .ok c ↔ x = .ok () ∧ f () = .ok c := by
  cases x <;> simp [Bind.bind,Except.bind]

theorem forM_eq_ok {β ε : Type} (l : List β) (f : β → Except ε Unit) :
    l.forM f = .ok () ↔ ∀ x ∈ l, f x = .ok () := by
  induction l with
  | nil => simp [List.forM,pure,Except.pure]
  | cons x xs ih => simp only [List.forM,bind_unit_eq_ok,ih,List.forall_mem_cons]

/-- What every step of a successful `foldlM` keeps holds of its result. -/
theorem foldlM_ok_induction {β γ ε : Type} (P : β → Prop) {f : β → γ → Except ε β} {l : List γ}
    (hf : ∀ b x b', x ∈ l → P b → f b x = .ok b' → P b') {b b' : β} (hb : P b)
    (h : l.foldlM f b = .ok b') : P b' := by
  induction l generalizing b with
  | nil => cases h; exact hb
  | cons x xs ih =>
    obtain ⟨b₁,h₁,h⟩ := (bind_eq_ok _ _ _).mp h
    exact ih (fun b x b' hx => hf b x b' (List.mem_cons_of_mem _ hx)) (hf b x b₁ (by simp) hb h₁) h

theorem foldlM_ok_split {β γ ε : Type} {f : β → γ → Except ε β} {l : List γ} {x : γ} (hx : x ∈ l)
    {b b' : β} (h : l.foldlM f b = .ok b') :
    ∃ l₁ l₂ c c', l = l₁++x::l₂ ∧ l₁.foldlM f b = .ok c ∧ f c x = .ok c' ∧ l₂.foldlM f c' = .ok b' := by
  obtain ⟨l₁,l₂,rfl⟩ := List.append_of_mem hx
  rw [List.foldlM_append] at h
  obtain ⟨c,h₁,h⟩ := (bind_eq_ok _ _ _).mp h
  obtain ⟨c',h₂,h⟩ := (bind_eq_ok _ _ _).mp h
  exact ⟨l₁,l₂,c,c',rfl,h₁,h₂,h⟩

theorem foldlM_ok_keeps {β γ ε : Type} (P Q : β → Prop) {f : β → γ → Except ε β} {l : List γ}
    (hf : ∀ b x b', x ∈ l → P b → f b x = .ok b' → P b' ∧ (Q b → Q b')) {b b' : β} (hb : P b)
    (h : l.foldlM f b = .ok b') : P b' ∧ (Q b → Q b') :=
  foldlM_ok_induction (fun c => P c ∧ (Q b → Q c))
    (fun c x c' hx hc hs => ⟨(hf c x c' hx hc.1 hs).1,(hf c x c' hx hc.1 hs).2 ∘ hc.2⟩) ⟨hb,id⟩ h

/-- A property that the step at `x` establishes from every state where `P` holds, and that
every step keeps where `P` holds, holds after a fold through `x` that keeps `P`. -/
theorem foldlM_ok_of_mem {β γ ε : Type} (P Q : β → Prop) {f : β → γ → Except ε β} {l : List γ}
    {x : γ} (hx : x ∈ l) (hf : ∀ b y b', y ∈ l → P b → f b y = .ok b' → P b' ∧ (Q b → Q b'))
    (hfx : ∀ b b', P b → f b x = .ok b' → Q b') {b b' : β} (hb : P b) (h : l.foldlM f b = .ok b') :
    Q b' := by
  obtain ⟨l₁,l₂,c,c',rfl,h₁,h₂,h₃⟩ := foldlM_ok_split hx h
  have hmem : ∀ y, y ∈ l₁ ∨ y ∈ l₂ → y ∈ l₁++x::l₂ := fun y hy => by rcases hy with hy | hy <;> simp [hy]
  have hc := (foldlM_ok_keeps P Q (fun b y b' hy => hf b y b' (hmem y (.inl hy))) hb h₁).1
  exact (foldlM_ok_keeps P Q (fun b y b' hy => hf b y b' (hmem y (.inr hy))) (hf c x c' (by simp) hc h₂).1
    h₃).2 (hfx c c' hc h₂)

/-- A `foldlM` that fails ran to completion over a prefix and failed at the next element. -/
theorem foldlM_eq_error {β γ ε : Type} {f : β → γ → Except ε β} {l : List γ} {b : β} {e : ε}
    (h : l.foldlM f b = .error e) :
    ∃ l₁ x l₂ b', l = l₁++x::l₂ ∧ l₁.foldlM f b = .ok b' ∧ f b' x = .error e := by
  induction l generalizing b with
  | nil => cases h
  | cons x xs ih =>
    rcases (bind_eq_error _ _ _).mp h with hx | ⟨b₁,h₁,h⟩
    · exact ⟨[],x,xs,b,rfl,rfl,hx⟩
    · obtain ⟨l₁,y,l₂,b',rfl,hl₁,hy⟩ := ih h
      exact ⟨x::l₁,y,l₂,b',rfl,by simpa [h₁] using hl₁,hy⟩

/-- A successful `mapM` relates each element to its image. -/
theorem mapM_ok_forall₂ {β γ ε : Type} {f : β → Except ε γ} {xs : List β} {ys : List γ}
    (h : xs.mapM f = .ok ys) : List.Forall₂ (fun x y => f x = .ok y) xs ys := by
  induction xs generalizing ys with
  | nil => cases h; exact .nil
  | cons x xs ih =>
    rw [List.mapM_cons] at h
    obtain ⟨y,hy,h⟩ := (bind_eq_ok _ _ _).mp h
    obtain ⟨ys',hys,h⟩ := (bind_eq_ok _ _ _).mp h
    cases (pure_eq_ok _ _).mp h
    exact .cons hy (ih hys)

theorem mapM_error {β γ ε : Type} {f : β → Except ε γ} {l : List β} {e : ε} (h : l.mapM f = .error e) :
    ∃ x ∈ l, f x = .error e := by
  induction l with
  | nil => cases h
  | cons x l ih =>
    rw [List.mapM_cons] at h
    rcases (bind_eq_error _ _ _).mp h with hx | ⟨_,-,h⟩
    · exact ⟨x,List.mem_cons_self x l,hx⟩
    rcases (bind_eq_error _ _ _).mp h with hl | ⟨_,-,h⟩
    · obtain ⟨y,hy,hfy⟩ := ih hl
      exact ⟨y,List.mem_cons_of_mem x hy,hfy⟩
    · cases h

end HoloscanLowering
