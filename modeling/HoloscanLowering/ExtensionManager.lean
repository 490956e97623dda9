import Mathlib

/-! `GXFExtensionManager::tokenize`, which splits the extension search paths of an environment
variable at a set of delimiter characters. A `std::string` is its list of characters;
`find_first_of` and `find_first_not_of` give `none` for `std::string::npos`. -/
namespace HoloscanLowering
namespace ExtensionManager

def findFirstOf (str delimiters : List Char) (pos : Nat) : Option Nat :=
  ((str.drop pos).findIdx? (· ∈ delimiters)).map (pos + ·)

def findFirstNotOf (str delimiters : List Char) (pos : Nat) : Option Nat :=
  ((str.drop pos).findIdx? (· ∉ delimiters)).map (pos + ·)

def substr (str : List Char) (pos count : Nat) : List Char := (str.drop pos).take count

/-- The `while` loop of `tokenize` from `end = pos`, for at most `fuel` rounds. When
`find_first_of` gives `npos`, `substr(start, npos - start)` copies to the end of the string,
which is shorter than `npos`, and the next `find_first_not_of(delimiters, npos)` is `npos`. -/
def tokenizeFrom (str delimiters : List Char) : Nat → Nat → Option (List (List Char))
  | 0, _ => none
  | fuel+1, pos =>
    match findFirstNotOf str delimiters pos with
    | none => some []
    | some start =>
      match findFirstOf str delimiters start with
      | none => some [str.drop start]
      | some stop => (tokenizeFrom str delimiters fuel stop).map (substr str start (stop - start) :: ·)

/-- `GXFExtensionManager::tokenize(str, delimiters)`, with a round per character as fuel. -/
def tokenize (str delimiters : List Char) : Option (List (List Char)) :=
  if str.length = 0 then some [] else tokenizeFrom str delimiters (str.length + 1) 0

/-! ### The maximal runs outside the delimiters -/

/-- The maximal non-empty runs of characters not in `delimiters`, in order. -/
def runs (str delimiters : List Char) : List (List Char) :=
  (str.splitOnP (· ∈ delimiters)).filter (· ≠ [])

variable {D : List Char}

theorem runs_cons_of_mem {c : Char} (hc : c ∈ D) (r : List Char) : runs (c :: r) D = runs r D := by
  simp [runs,List.splitOnP_cons,hc]

theorem runs_append_of_forall_mem {ds : List Char} (hds : ∀ c ∈ ds, c ∈ D) (r : List Char) :
    runs (ds ++ r) D = runs r D := by
  induction ds with
  | nil => rfl
  | cons c ds ih =>
    rw [List.forall_mem_cons] at hds
    rw [List.cons_append,runs_cons_of_mem hds.1,ih hds.2]

theorem runs_of_forall_mem {r : List Char} (h : ∀ c ∈ r, c ∈ D) : runs r D = [] := by
  simpa using runs_append_of_forall_mem h []

theorem runs_of_forall_not_mem {tok : List Char} (hne : tok ≠ []) (h : ∀ c ∈ tok, c ∉ D) :
    runs tok D = [tok] := by
  simp [runs,List.splitOnP_eq_single (· ∈ D) tok fun c hc => by simpa using h c hc,hne]

theorem runs_append_cons {tok : List Char} (hne : tok ≠ []) (h : ∀ c ∈ tok, c ∉ D) {d : Char}
    (hd : d ∈ D) (r : List Char) : runs (tok ++ d :: r) D = tok :: runs (d :: r) D := by
  rw [runs_cons_of_mem hd]
  simp [runs,List.splitOnP_first (· ∈ D) tok (fun c hc => by simpa using h c hc) d (by simpa using hd),hne]

theorem not_mem_of_mem_splitOnP {s t : List Char} (ht : t ∈ s.splitOnP (· ∈ D)) : ∀ c ∈ t, c ∉ D := by
  induction s generalizing t with
  | nil => simp_all
  | cons x s ih =>
    rw [List.splitOnP_cons] at ht
    split_ifs at ht with hx
    · rcases List.mem_cons.mp ht with rfl | ht
      · simp
      · exact ih ht
    · obtain ⟨h,rest,hs⟩ := List.exists_cons_of_ne_nil (List.splitOnP_ne_nil (· ∈ D) s)
      rw [hs,List.modifyHead_cons] at ht
      rcases List.mem_cons.mp ht with rfl | ht
      · simpa using ⟨by simpa using hx,ih (hs ▸ List.mem_cons_self h rest)⟩
      · exact ih (hs ▸ List.mem_cons_of_mem h ht)

theorem mem_runs {s t : List Char} (ht : t ∈ runs s D) : t ≠ [] ∧ ∀ c ∈ t, c ∉ D := by
  obtain ⟨hs,hne⟩ := List.mem_filter.mp ht
  exact ⟨by simpa using hne,not_mem_of_mem_splitOnP hs⟩

theorem flatten_runs (s : List Char) : (runs s D).flatten = s.filter (· ∉ D) := by
  induction s with
  | nil => rfl
  | cons c s ih =>
    by_cases hc : c ∈ D
    · rw [runs_cons_of_mem hc,ih]
      simp [hc]
    · obtain ⟨h,rest,hs⟩ := List.exists_cons_of_ne_nil (List.splitOnP_ne_nil (· ∈ D) s)
      simp only [runs,hs,List.splitOnP_cons,hc,decide_False,Bool.false_eq_true,if_false,
        List.modifyHead_cons] at ih ⊢
      by_cases hh : h = [] <;> simp_all

/-! ### The loop computes the runs -/

/-- A string is delimiters only, or delimiters, a non-empty run, and a rest that is empty or
starts with a delimiter. -/
theorem exists_run (r : List Char) : (∀ c ∈ r, c ∈ D) ∨ ∃ ds tok rest, r = ds ++ (tok ++ rest) ∧
    (∀ c ∈ ds, c ∈ D) ∧ tok ≠ [] ∧ (∀ c ∈ tok, c ∉ D) ∧ (rest = [] ∨ ∃ d rest', rest = d :: rest' ∧ d ∈ D) := by
  induction r with
  | nil => simp
  | cons c r ih =>
    by_cases hc : c ∈ D
    · refine ih.imp (fun h => List.forall_mem_cons.mpr ⟨hc,h⟩) fun ⟨ds,tok,rest,hr,h⟩ => ?_
      exact ⟨c::ds,tok,rest,by rw [hr]; rfl,List.forall_mem_cons.mpr ⟨hc,h.1⟩,h.2⟩
    refine .inr ?_
    rcases ih with hr | ⟨ds,tok,rest,hr,hds,hne,htok,hrest⟩
    · cases r with
      | nil => exact ⟨[],[c],[],rfl,by simp,by simp,by simpa using hc,.inl rfl⟩
      | cons d r => exact ⟨[],[c],d::r,rfl,by simp,by simp,by simpa using hc,.inr ⟨d,r,rfl,hr d (by simp)⟩⟩
    · cases ds with
      | nil => exact ⟨[],c::tok,rest,by simp [hr],by simp,by simp,List.forall_mem_cons.mpr ⟨hc,htok⟩,hrest⟩
      | cons d ds =>
        exact ⟨[],[c],d::(ds++(tok++rest)),by simp [hr],by simp,by simp,by simpa using hc,
          .inr ⟨d,_,rfl,hds d (by simp)⟩⟩

theorem findIdx?_append_of_forall {p : Char → Bool} {xs : List Char} (h : ∀ x ∈ xs, p x = false)
    (ys : List Char) : (xs ++ ys).findIdx? p = (ys.findIdx? p).map (· + xs.length) := by
  rw [List.findIdx?_append,List.findIdx?_eq_none_iff.mpr h]
  rfl

/-- From `pos`, with `tokenizeFrom` given more rounds than characters left, the loop returns
the runs of the rest of the string. -/
theorem tokenizeFrom_eq (str : List Char) :
    ∀ fuel pos, str.length - pos < fuel → tokenizeFrom str D fuel pos = some (runs (str.drop pos) D) := by
  intro fuel
  induction fuel with
  | zero => intro _ h; omega
  | succ fuel ih =>
    intro pos hfuel
    rcases exists_run (D := D) (str.drop pos) with hall | ⟨ds,tok,rest,hr,hds,hne,htok,hrest⟩
    · have hnone : findFirstNotOf str D pos = none := by
        simpa [findFirstNotOf,List.findIdx?_eq_none_iff] using hall
      simp [tokenizeFrom,hnone,runs_of_forall_mem hall]
    have hstart : findFirstNotOf str D pos = some (pos + ds.length) := by
      obtain ⟨c,tok',rfl⟩ := List.exists_cons_of_ne_nil hne
      rw [findFirstNotOf,hr,findIdx?_append_of_forall (p := (· ∉ D)) (by simpa using hds)]
      simp [htok c (List.mem_cons_self c tok'),Nat.add_comm]
    have hdrop : str.drop (pos + ds.length) = tok ++ rest := by
      rw [← List.drop_drop,hr,List.drop_left]
    have hruns : runs (str.drop pos) D = runs (tok ++ rest) D := by
      rw [hr,runs_append_of_forall_mem hds]
    have hlen : str.length - pos = ds.length + (tok.length + rest.length) := by
      simp [← List.length_drop,hr]
    rcases hrest with rfl | ⟨d,rest',rfl,hd⟩
    · rw [List.append_nil] at hdrop hruns
      have hstop : findFirstOf str D (pos + ds.length) = none := by
        simpa [findFirstOf,hdrop,List.findIdx?_eq_none_iff] using htok
      simp [tokenizeFrom,hstart,hstop,hdrop,hruns,runs_of_forall_not_mem hne htok]
    · have hstop : findFirstOf str D (pos + ds.length) = some (pos + ds.length + tok.length) := by
        simp [findFirstOf,hdrop,findIdx?_append_of_forall (p := (· ∈ D)) (by simpa using htok),hd]
      have hnext : str.drop (pos + ds.length + tok.length) = d :: rest' := by
        rw [← List.drop_drop,hdrop,List.drop_left]
      have hrec := ih (pos + ds.length + tok.length) (by
        have := List.length_pos.mpr hne
        simp only [List.length_cons] at hlen
        omega)
      simp [tokenizeFrom,hstart,hstop,hrec,hnext,hruns,substr,hdrop,runs_append_cons hne htok hd]

/-- `tokenize` ends and returns the maximal non-empty runs of characters outside the
delimiters, in order: no token is empty or holds a delimiter, and the tokens together are the
string without its delimiters. -/
theorem tokenize_eq_runs (str delimiters : List Char) :
    tokenize str delimiters = some (runs str delimiters) ∧
      (∀ t ∈ runs str delimiters, t ≠ [] ∧ ∀ c ∈ t, c ∉ delimiters) ∧
      (runs str delimiters).flatten = str.filter (· ∉ delimiters) := by
  refine ⟨?_,fun _ => mem_runs,flatten_runs str⟩
  unfold tokenize
  split_ifs with h
  · rw [List.length_eq_zero.mp h]
    rfl
  · simpa using tokenizeFrom_eq str (str.length + 1) 0 (by omega)

example : tokenize ":/opt/a::/opt/b:".toList [':'] = some ["/opt/a".toList,"/opt/b".toList] := by
  decide

end ExtensionManager
end HoloscanLowering
