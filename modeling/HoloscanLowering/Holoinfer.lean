import Mathlib

/-! Two checks of the inference module (`holoinfer`, `infer_utils.cpp`): the dimensions of the
input tensors against those of the models (`tensor_dimension_check`), and the reading of a
YAML mapping from tensor names to `dim` and `dtype` strings (`string_split`,
`parse_yaml_node`). A `std::map` is the list of its entries in iteration order. -/
namespace HoloscanLowering
namespace Holoinfer

inductive HoloinferCode
  | hSuccess
  | hError
  deriving DecidableEq, Repr

/-- Modelled from its uses in `infer_utils.cpp`, its header not being among the sources:
`InferStatus` holds a code and a message, and `InferStatus()` is a success. -/
structure InferStatus where
  code : HoloinferCode
  message : String
  deriving DecidableEq, Repr

def InferStatus.success : InferStatus := ⟨.hSuccess,""⟩

/-- How a call leaves other than by returning: `std::invalid_argument` or `std::out_of_range`
thrown, or a vector read past its end. -/
inductive Failure
  | invalidArgument
  | outOfRange
  | undefined
  deriving DecidableEq, Repr

def lookup {β : Type} (m : List (String × β)) (key : String) : Except Failure β :=
  match m.find? (·.1 = key) with
  | some e => .ok e.2
  | none => .error .outOfRange

/-! ### `tensor_dimension_check` -/

/-- The check of one input tensor against its model input, `true` when it passes. Both are
sorted first. Ranks that differ must differ by one with the model's smallest entry `1` (the
`size_t` difference is `1` exactly then, as the truncated one is); `batch_flag` is then one.
Each tensor dimension `j` must equal the model's at `j + batch_flag` where that is positive. -/
def checkTensor (tensorDim inputModelDim : List Int) : Bool :=
  let tensorDim := tensorDim.insertionSort (· ≤ ·)
  let inputModelDim := inputModelDim.insertionSort (· ≤ ·)
  let batchFlag := if tensorDim.length ≠ inputModelDim.length then 1 else 0
  (tensorDim.length = inputModelDim.length ||
    (inputModelDim.length - tensorDim.length = 1 && inputModelDim.head? = some 1)) &&
  (tensorDim.zip (inputModelDim.drop batchFlag)).all fun (x,y) => !(0 < y) || x = y

def dimensionMismatch : InferStatus := ⟨.hError,"Dimension mismatch for input tensor."⟩

/-- The inner loop over the tensors of one model: the `i`-th against the model's `i`-th input
(`input_dimensions[i]`), stopping at the first that fails. -/
def checkTensors (dimsPerTensor : List (String × List Int)) :
    List String → List (List Int) → Except Failure Bool
  | [], _ => .ok true
  | t :: ts, dims => do
    let tensorDim ← lookup dimsPerTensor t
    match dims with
    | [] => .error .undefined
    | m :: ms => if checkTensor tensorDim m then checkTensors dimsPerTensor ts ms else .ok false

def tensorDimensionCheck (preProcessorMap : List (String × List String))
    (dimsPerTensor : List (String × List Int)) : List (String × List (List Int)) →
    Except Failure InferStatus
  | [] => .ok .success
  | (model,inputDimensions)::rest => do
    let inputTensors ← lookup preProcessorMap model
    if ← checkTensors dimsPerTensor inputTensors inputDimensions
    then tensorDimensionCheck preProcessorMap dimsPerTensor rest
    else .ok dimensionMismatch

/-- The match that the comparison is meant to make, position by position: equal ranks and the
tensor equal to the model on its positive (static) entries, or a model of one more rank whose
first entry is a batch dimension `1`, followed by a match. -/
def positionalMatch (t m : List Int) : Bool :=
  (t.length = m.length && (t.zip m).all fun (x,y) => !(0 < y) || x = y) ||
  (m.length = t.length + 1 && m.head? = some 1 && (t.zip m.tail).all fun (x,y) => !(0 < y) || x = y)

theorem checkTensor_eq_sorted (t m : List Int) :
    checkTensor t m = positionalMatch (t.insertionSort (· ≤ ·)) (m.insertionSort (· ≤ ·)) := by
  unfold checkTensor positionalMatch
  generalize t.insertionSort (· ≤ ·) = t
  generalize m.insertionSort (· ≤ ·) = m
  by_cases h : t.length = m.length
  · simp [h]
  · have : m.length - t.length = 1 ↔ m.length = t.length + 1 := by omega
    simp [h,this]

/-- `dynamicDims`: a model input `[3, -1, 224]` with a dynamic second entry, and a tensor
`[3, 100, 224]` that matches it position by position. Sorted, the model's `-1` moves to the
front, `3` is compared with `100`, and the check fails. -/
theorem dynamicDim_tensor_rejected :
    positionalMatch [3,100,224] [3,-1,224] = true ∧
      tensorDimensionCheck [("model",["input"])] [("input",[3,100,224])] [("model",[[3,-1,224]])] =
        .ok dimensionMismatch :=
  ⟨by decide,rfl⟩

theorem positionalMatch_self (l : List Int) : positionalMatch l l = true := by
  have hzip : ((l.zip l).all fun (x,y) => !(0 < y) || x = y) = true := by
    induction l <;> simp_all
  simp [positionalMatch,hzip]

theorem positionalMatch_sorted_of_static {t m : List Int} (hm : ∀ x ∈ m, 0 < x)
    (h : positionalMatch t m = true) :
    positionalMatch (t.insertionSort (· ≤ ·)) (m.insertionSort (· ≤ ·)) = true := by
  have heq : ∀ {t m : List Int}, t.length = m.length → (∀ x ∈ m, 0 < x) →
      ((t.zip m).all fun (x,y) => !(0 < y) || x = y) = true → t = m := by
    intro t m hl hm h
    induction t generalizing m with
    | nil => exact (List.length_eq_zero.mp hl.symm).symm
    | cons x t ih =>
      obtain ⟨y,m,rfl⟩ := List.exists_cons_of_length_eq_add_one hl.symm
      simp only [List.zip_cons_cons,List.all_cons,Bool.and_eq_true,Bool.or_eq_true,Bool.not_eq_true',
        decide_eq_false_iff_not,decide_eq_true_eq] at h
      have hy := hm y (List.mem_cons_self y m)
      rw [h.1.resolve_left (by omega),ih (by simpa using hl) (fun z hz => hm z (List.mem_cons_of_mem y hz)) h.2]
  simp only [positionalMatch,Bool.or_eq_true,Bool.and_eq_true,decide_eq_true_eq] at h
  rcases h with ⟨hl,ha⟩ | ⟨⟨hl,hh⟩,ha⟩
  · rw [heq hl hm ha]
    exact positionalMatch_self _
  · obtain ⟨y,m,rfl⟩ := List.exists_cons_of_length_eq_add_one hl
    simp only [List.head?_cons,Option.some.injEq] at hh
    subst hh
    have hm' : ∀ x ∈ m, 0 < x := fun x hx => hm x (List.mem_cons_of_mem 1 hx)
    rw [List.tail_cons] at ha
    rw [heq (by simp at hl; omega) hm' ha,List.insertionSort_cons (· ≤ ·) fun b hb => by
      show (1 : Int) ≤ b
      exact hm' b hb]
    have hzip := positionalMatch_self (m.insertionSort (· ≤ ·))
    simp only [positionalMatch,Bool.or_eq_true,Bool.and_eq_true,decide_eq_true_eq] at hzip
    simp [positionalMatch,hzip.elim (·.2) fun h => absurd h.1.1 (by omega)]

theorem checkTensors_ok {dimsPerTensor : List (String × List Int)} {ts : List String}
    {ds : List (List Int)} {dims : List (List Int)} (hd : ts.mapM (lookup dimsPerTensor) = .ok ds)
    (hl : ds.length ≤ dims.length) (hc : ∀ p ∈ ds.zip dims, checkTensor p.1 p.2 = true) :
    checkTensors dimsPerTensor ts dims = .ok true := by
  induction ts generalizing ds dims with
  | nil => rfl
  | cons t ts ih =>
    rw [List.mapM_cons] at hd
    cases hdt : lookup dimsPerTensor t with
    | error e => rw [hdt] at hd; cases hd
    | ok d =>
      rw [hdt] at hd
      cases hds : ts.mapM (lookup dimsPerTensor) with
      | error e => rw [hds] at hd; cases hd
      | ok ds' =>
        rw [hds] at hd
        cases hd
        obtain ⟨m,ms,rfl⟩ : ∃ m ms, dims = m :: ms := List.exists_cons_of_length_pos (by simp at hl; omega)
        have hm := hc (d,m) (by simp)
        simp only [checkTensors,hdt,bind,Except.bind,hm,if_true]
        exact ih hds (by simp at hl; omega) fun p hp => hc p (by simp [hp])

/-- For every pre-processor map, tensor dimensions and model input dimensions, where each model
lists no more tensors than it has inputs and every tensor has dimensions: the check succeeds
when every model input is static (all entries positive) and each tensor matches its input
position by position. -/
theorem tensorDimensionCheck_static_ok {preProcessorMap : List (String × List String)}
    {dimsPerTensor : List (String × List Int)} {models : List (String × List (List Int))}
    (h : ∀ e ∈ models, ∃ ts ds, lookup preProcessorMap e.1 = .ok ts ∧
      ts.mapM (lookup dimsPerTensor) = .ok ds ∧ ds.length ≤ e.2.length ∧
      ∀ p ∈ ds.zip e.2, (∀ x ∈ p.2, 0 < x) ∧ positionalMatch p.1 p.2 = true) :
    tensorDimensionCheck preProcessorMap dimsPerTensor models = .ok .success := by
  induction models with
  | nil => rfl
  | cons e models ih =>
    obtain ⟨ts,ds,hts,hds,hl,hp⟩ := h e (List.mem_cons_self e models)
    have hc := checkTensors_ok hds hl fun p hp' => by
      rw [checkTensor_eq_sorted]
      exact positionalMatch_sorted_of_static (hp p hp').1 (hp p hp').2
    simp only [tensorDimensionCheck,hts,hc,bind,Except.bind,if_true]
    exact ih fun e' he' => h e' (List.mem_cons_of_mem e he')

theorem staticModel_tensor_ok :
    (∀ e ∈ [("model",[[1,3,224]])], ∃ ts ds, lookup [("model",["input"])] e.1 = .ok ts ∧
      ts.mapM (lookup [("input",[3,224])]) = .ok ds ∧ ds.length ≤ e.2.length ∧
      ∀ p ∈ ds.zip e.2, (∀ x ∈ p.2, 0 < x) ∧ positionalMatch p.1 p.2 = true) ∧
    tensorDimensionCheck [("model",["input"])] [("input",[3,224])] [("model",[[1,3,224]])] = .ok .success := by
  have h : ∀ e ∈ [("model",[[(1 : Int),3,224]])], ∃ ts ds, lookup [("model",["input"])] e.1 = .ok ts ∧
      ts.mapM (lookup [("input",[(3 : Int),224])]) = .ok ds ∧ ds.length ≤ e.2.length ∧
      ∀ p ∈ ds.zip e.2, (∀ x ∈ p.2, 0 < x) ∧ positionalMatch p.1 p.2 = true := by
    intro e he
    rw [List.mem_singleton.mp he]
    exact ⟨["input"],[[3,224]],rfl,rfl,by decide,by decide⟩
  exact ⟨h,tensorDimensionCheck_static_ok h⟩

/-! ### `string_split` and `parse_yaml_node` -/

def isSpace (c : Char) : Bool :=
  c = ' ' || c = '\t' || c = '\n' || c = '\x0b' || c = '\x0c' || c = '\r'

def digitsValue (ds : List Char) : Nat := ds.foldl (fun n c => 10 * n + (c.toNat - '0'.toNat)) 0

/-- `std::stoi(str)`: `strtol` in base 10 after leading white space, an optional sign and at
least one digit, the characters after the digits ignored. Without a digit it throws
`std::invalid_argument`; a value outside `int` throws `std::out_of_range`. -/
def stoi (str : List Char) : Except Failure Int :=
  let s := str.dropWhile isSpace
  let (negative,s) := match s with
    | '-' :: s => (true,s)
    | '+' :: s => (false,s)
    | s => (false,s)
  let digits := s.takeWhile Char.isDigit
  if digits.isEmpty then .error .invalidArgument else
  let n : Int := if negative then -(digitsValue digits : Int) else digitsValue digits
  if n < -2^31 ∨ 2^31 - 1 < n then .error .outOfRange else .ok n

/-- `string_split(line, tokens, c)`: `std::getline(stream, token, c)` until it fails. A call
takes the characters up to the next `c` and drops that `c`, and fails at the end of the stream
when it took nothing; `token` is what the current call has taken so far. -/
def splitFrom (c : Char) (token : List Char) : List Char → List (List Char)
  | [] => if token.isEmpty then [] else [token]
  | x :: s => if x = c then token :: splitFrom c [] s else splitFrom c (token ++ [x]) s

def stringSplit (line : List Char) (c : Char) : List (List Char) := splitFrom c [] line

def dropEmptyLast (pieces : List (List Char)) : List (List Char) :=
  if pieces.getLast? = some [] then pieces.dropLast else pieces

theorem dropEmptyLast_cons (p : List Char) {ps : List (List Char)} (h : ps ≠ []) :
    dropEmptyLast (p :: ps) = p :: dropEmptyLast ps := by
  obtain ⟨q,qs,rfl⟩ := List.exists_cons_of_ne_nil h
  unfold dropEmptyLast
  split_ifs <;> simp_all

theorem splitFrom_eq (c : Char) (token line : List Char) :
    splitFrom c token line = dropEmptyLast ((line.splitOnP (· = c)).modifyHead (token ++ ·)) := by
  induction line generalizing token with
  | nil => cases token <;> simp [splitFrom,dropEmptyLast]
  | cons x line ih =>
    by_cases hx : x = c
    · simp only [splitFrom,hx,if_true,List.splitOnP_cons,decide_True,List.modifyHead_cons,List.append_nil]
      rw [dropEmptyLast_cons _ (List.splitOnP_ne_nil _ _),ih]
      simp only [List.nil_append]
      rw [show (fun l : List Char => l) = id from rfl,List.modifyHead_id,id]
    · simp only [splitFrom,hx,if_false,List.splitOnP_cons,decide_False,Bool.false_eq_true,
        List.modifyHead_modifyHead,ih]
      congr 2
      funext l
      simp

theorem stringSplit_eq (line : List Char) (c : Char) :
    stringSplit line c = dropEmptyLast (line.splitOnP (· = c)) := by
  rw [stringSplit,splitFrom_eq]
  simp only [List.nil_append]
  rw [show (fun l : List Char => l) = id from rfl,List.modifyHead_id,id]

/-- An entry of the YAML mapping: its key, and its `dim` and `dtype` strings when present. -/
structure YamlEntry where
  key : String
  dim : Option String
  dtype : Option String
  deriving DecidableEq, Repr

structure Parsed where
  names : List String
  dims : List (List Int)
  types : List String
  deriving DecidableEq, Repr

def parseError : InferStatus := ⟨.hError,"Error in yaml node parsing."⟩

def readDim : List (List Char) → Except Failure (Option (List Int))
  | [] => .ok (some [])
  | t :: ts => do
    let v ← stoi t
    if v ≤ 0 then return none
    return (← readDim ts).map (v :: ·)

/-- The `dim` part of one entry: the dimensions with the entry's appended, or `none` when the
call returns `H_ERROR`; a missing `dim` is the placeholder `{0}`. -/
def parseDim (dim : Option String) (dims : List (List Int)) : Except Failure (Option (List (List Int))) :=
  match dim with
  | none => .ok (some (dims ++ [[0]]))
  | some value =>
    if value.length ≠ 0 then
      let tokens := stringSplit value.toList ' '
      if tokens.length > 0 then do
        match ← readDim tokens with
        | none => return none
        | some dim => return some (dims ++ [dim])
      else .ok (some dims)
    else .ok none

/-- `parse_yaml_node(in_config, names, dims, types)` over the entries in order, `dataTypes`
being the keys of `kHoloInferDataTypeMap`, whose definition is not among the sources. The
status, and the vectors as the call leaves them. -/
def parseYamlNode (dataTypes : List String) :
    List YamlEntry → Parsed → Except Failure (InferStatus × Parsed)
  | [], out => .ok (.success,out)
  | e :: es, out =>
    if e.key.length = 0 then .ok (parseError,out) else
    let out := { out with names := out.names ++ [e.key] }
    do
    match ← parseDim e.dim out.dims with
    | none => return (parseError,out)
    | some dims =>
      let out := { out with dims := dims }
      match e.dtype with
      | some value =>
        if value ∈ dataTypes then parseYamlNode dataTypes es { out with types := out.types ++ [value] }
        else return (parseError,out)
      | none => return (parseError,out)

theorem readDim_ok {ts : List (List Char)} (h : ∀ t ∈ ts, ∃ n, stoi t = .ok n) :
    ∃ r, readDim ts = .ok r := by
  induction ts with
  | nil => exact ⟨_,rfl⟩
  | cons t ts ih =>
    obtain ⟨n,hn⟩ := h t (List.mem_cons_self t ts)
    obtain ⟨r,hr⟩ := ih fun t' ht' => h t' (List.mem_cons_of_mem t ht')
    by_cases hv : n ≤ 0 <;> simp [readDim,hn,hr,hv,bind,Except.bind,pure,Except.pure]

theorem parseYamlNode_returns {dataTypes : List String} {entries : List YamlEntry}
    (h : ∀ e ∈ entries, ∀ v, e.dim = some v → ∀ t ∈ stringSplit v.toList ' ', ∃ n, stoi t = .ok n)
    (out : Parsed) : ∃ r, parseYamlNode dataTypes entries out = .ok r := by
  induction entries generalizing out with
  | nil => exact ⟨_,rfl⟩
  | cons e es ih =>
    have ih := fun out => ih (fun e' he' => h e' (List.mem_cons_of_mem e he')) out
    unfold parseYamlNode
    split_ifs
    · exact ⟨_,rfl⟩
    obtain ⟨r,hr⟩ : ∃ r, parseDim e.dim out.dims = .ok r := by
      cases hv : e.dim with
      | none => exact ⟨_,rfl⟩
      | some v =>
        obtain ⟨r,hr⟩ := readDim_ok (h e (List.mem_cons_self e es) v hv)
        unfold parseDim
        dsimp only
        split_ifs
        · rw [hr]
          cases r <;> exact ⟨_,rfl⟩
        all_goals exact ⟨_,rfl⟩
    simp only [hr,bind,Except.bind]
    split
    · exact ⟨_,rfl⟩
    split
    · split_ifs
      · exact ih _
      · exact ⟨_,rfl⟩
    · exact ⟨_,rfl⟩

/-- A `dim` of `"1  3"`: the two spaces give an empty token, on which `std::stoi` throws
`std::invalid_argument`, and the call raises instead of returning `H_ERROR`, whatever data
types are known. -/
theorem doubleSpaceDim_raises (dataTypes : List String) :
    parseYamlNode dataTypes [⟨"input",some "1  3",some "kFloat32"⟩] ⟨[],[],[]⟩ = .error .invalidArgument :=
  rfl

end Holoinfer
end HoloscanLowering
