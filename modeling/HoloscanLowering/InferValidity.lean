import HoloscanLowering.Except
import HoloscanLowering.Holoinfer

/-! The validity checks of the inference configuration (`infer_utils.cpp`):
`check_mappings_size_value`, `check_multi_mappings_size_value`, `inference_validity_check` and
`processor_validity_check`. Each returns at its first failed test a status with code `H_ERROR`
and a message, and `InferStatus()` once every test has passed; its body is an `Except String`
computation whose error is that message. A `std::map` is the list of its entries in iteration
order, no key twice, and `std::filesystem::exists` a predicate on paths. -/
namespace HoloscanLowering
namespace InferValidity
open Holoinfer

/-- A `std::map` with string keys: its entries in iteration order, no key twice. -/
structure StdMap (β : Type) where
  entries : List (String × β)
  keys_nodup : (entries.map (·.1)).Nodup

abbrev Mappings := StdMap String

abbrev MultiMappings := StdMap (List String)

namespace StdMap

def keys {β : Type} (m : StdMap β) : List String := m.entries.map (·.1)

def contains {β : Type} (m : StdMap β) (key : String) : Bool := m.entries.any (·.1 == key)

/-- Every name of every key, in iteration order. -/
def tensors (m : MultiMappings) : List String := m.entries.flatMap (·.2)

@[simp] theorem contains_iff {β : Type} (m : StdMap β) (key : String) :
    m.contains key = true ↔ key ∈ m.keys := by
  simp [contains,keys]

theorem mem_tensors {m : MultiMappings} {t : String} : t ∈ m.tensors ↔ ∃ e ∈ m.entries, t ∈ e.2 :=
  List.mem_flatMap

end StdMap

/-! ### Statuses -/

/-- A test of the source, `status.set_message(message); return status;` when it fails. -/
def failIf (failed : Bool) (message : String) : Except String Unit :=
  if failed then .error message else .ok ()

/-- The status a check returns: its first failure with code `H_ERROR`, or `InferStatus()`. -/
def returned : Except String Unit → InferStatus
  | .error message => ⟨.hError,message⟩
  | .ok () => .success

def asCheck (status : InferStatus) : Except String Unit :=
  if status.code = .hError then .error status.message else .ok ()

theorem string_isEmpty_eq_false {s : String} : s.isEmpty = false ↔ s ≠ "" := by
  rw [Bool.eq_false_iff,ne_eq,String.isEmpty_iff]

@[simp] theorem failIf_eq_ok {failed : Bool} {message : String} :
    failIf failed message = .ok () ↔ failed = false := by
  cases failed <;> simp [failIf]

@[simp] theorem returned_eq_success {x : Except String Unit} : returned x = .success ↔ x = .ok () := by
  cases x <;> simp [returned,InferStatus.success]

@[simp] theorem asCheck_returned (x : Except String Unit) : asCheck (returned x) = x := by
  cases x <;> rfl

/-! ### `check_mappings_size_value` and `check_multi_mappings_size_value` -/

def checkMappingsSizeValue (inputMap : MultiMappings) (typeOfMap : String) : InferStatus :=
  returned do
    failIf inputMap.entries.isEmpty (typeOfMap ++ " is empty")
    inputMap.entries.forM fun (key,tensors) =>
      failIf (key.isEmpty || tensors.isEmpty) ("Empty entry for key or value in " ++ typeOfMap)

/-- `check_multi_mappings_size_value(input_map, type_of_map)`: the tests of
`check_mappings_size_value`, each with its own message, and then every name. -/
def checkMultiMappingsSizeValue (inputMap : MultiMappings) (typeOfMap : String) : InferStatus :=
  returned do
    failIf inputMap.entries.isEmpty (typeOfMap ++ " is empty")
    inputMap.entries.forM fun (key,tensors) => do
      failIf (tensors.length = 0) (typeOfMap ++ ": empty vector for " ++ key)
      failIf key.isEmpty ("Empty entry for key in " ++ typeOfMap)
      tensors.forM fun tensorName =>
        failIf tensorName.isEmpty ("Empty entry in the vector for key " ++ key)

/-- What `check_mappings_size_value` accepts: a nonempty map with no empty key or vector. -/
def MappingsValid (m : MultiMappings) : Prop :=
  m.entries ≠ [] ∧ ∀ e ∈ m.entries, e.1 ≠ "" ∧ e.2 ≠ []

def MultiValid (m : MultiMappings) : Prop :=
  MappingsValid m ∧ ∀ e ∈ m.entries, ∀ t ∈ e.2, t ≠ ""

theorem checkMappingsSizeValue_eq_success {m : MultiMappings} {typeOfMap : String} :
    checkMappingsSizeValue m typeOfMap = .success ↔ MappingsValid m := by
  simp [checkMappingsSizeValue,MappingsValid,bind_unit_eq_ok,forM_eq_ok,List.isEmpty_eq_false,
    string_isEmpty_eq_false]

theorem checkMultiMappingsSizeValue_eq_success {m : MultiMappings} {typeOfMap : String} :
    checkMultiMappingsSizeValue m typeOfMap = .success ↔ MultiValid m := by
  simp only [checkMultiMappingsSizeValue,MultiValid,MappingsValid,returned_eq_success,bind_unit_eq_ok,
    forM_eq_ok,failIf_eq_ok,List.isEmpty_eq_false,string_isEmpty_eq_false,Prod.forall,
    decide_eq_false_iff_not,List.length_eq_zero,ne_eq]
  constructor
  · exact fun ⟨hm,h⟩ => ⟨⟨hm,fun k ts he => ⟨(h k ts he).2.1,(h k ts he).1⟩⟩,
      fun k ts he => (h k ts he).2.2⟩
  · exact fun ⟨⟨hm,h⟩,ht⟩ => ⟨hm,fun k ts he => ⟨(h k ts he).2,(h k ts he).1,ht k ts he⟩⟩

/-! ### The loops over the names -/

/-- One pass of the loops that gather the names of a map and refuse a name already gathered. -/
def pushTensor (key mapName : String) (gathered : List String) (tensorName : String) :
    Except String (List String) :=
  if tensorName ∈ gathered then
    .error ("Duplicate tensor name: " ++ tensorName ++ " for key " ++ key ++ " in " ++ mapName)
  else .ok (gathered ++ [tensorName])

def appendNew (gathered names : List String) : List String :=
  names.foldl (fun acc t => if t ∈ acc then acc else acc ++ [t]) gathered

/-- One pass of the loop over `pre_processor_map`: the names of the key, none twice within
it, then those not gathered from an earlier key. -/
def pushInputs (inputTensors : List String) (entry : String × List String) :
    Except String (List String) := do
  let currentInputTensors ← entry.2.foldlM (pushTensor entry.1 "pre_processor map") []
  pure (appendNew inputTensors currentInputTensors)

def gatherInputs (preProcessorMap : MultiMappings) : Except String (List String) :=
  preProcessorMap.entries.foldlM pushInputs []

/-- One pass of the loop over a map of outputs (`inference_map`, `processed_map`): the names
of the key, none gathered before from any key. -/
def pushOutputs (mapName : String) (outputTensors : List String) (entry : String × List String) :
    Except String (List String) :=
  entry.2.foldlM (pushTensor entry.1 mapName) outputTensors

def gatherOutputs (mapName : String) (m : MultiMappings) : Except String (List String) :=
  m.entries.foldlM (pushOutputs mapName) []

/-- The loop over the configured names (`in_tensor_names`, `out_tensor_names`): each among the
gathered `tensors`, and none twice (the `std::map` of the names seen). -/
def namesCheck (tensors : List String) (mapName kind : String) :
    List String → List String → Except String Unit
  | _, [] => .ok ()
  | seen, name :: names => do
    failIf (name ∉ tensors) ("Tensor name: " ++ name ++ " absent in " ++ mapName)
    failIf (name ∈ seen) ("Duplicate entry for: " ++ name ++ " in " ++ kind ++ " tensor names")
    namesCheck tensors mapName kind (name :: seen) names

/-- A vector of names passed by reference: replaced by the gathered names when it is empty,
checked against them otherwise. -/
def resolveNames (tensors : List String) (mapName kind : String) (names : List String) :
    Except String (List String) :=
  if names.isEmpty then .ok tensors
  else do
    namesCheck tensors mapName kind [] names
    pure names

theorem foldlM_pushTensor {key mapName : String} {gathered names r : List String}
    (hg : gathered.Nodup) :
    names.foldlM (pushTensor key mapName) gathered = .ok r ↔
      (gathered ++ names).Nodup ∧ r = gathered ++ names := by
  induction names generalizing gathered with
  | nil => simp [pure,Except.pure,hg,eq_comm]
  | cons t names ih =>
    rw [List.foldlM_cons]
    by_cases ht : t ∈ gathered
    · simp [pushTensor,ht,Bind.bind,Except.bind,List.nodup_append]
    · have hg' : (gathered ++ [t]).Nodup := List.nodup_append.mpr ⟨hg,by simp,by simpa using ht⟩
      simp only [pushTensor,if_neg ht,bind_eq_ok,Except.ok.injEq,exists_eq_left',ih hg',
        List.append_assoc,List.singleton_append]

theorem pushInputs_eq_ok {inputTensors r : List String} {entry : String × List String} :
    pushInputs inputTensors entry = .ok r ↔ entry.2.Nodup ∧ r = appendNew inputTensors entry.2 := by
  simp only [pushInputs,bind_eq_ok,foldlM_pushTensor List.nodup_nil,List.nil_append,pure_eq_ok]
  constructor
  · rintro ⟨_,⟨hn,rfl⟩,rfl⟩
    exact ⟨hn,rfl⟩
  · rintro ⟨hn,rfl⟩
    exact ⟨_,⟨hn,rfl⟩,rfl⟩

theorem gatherInputs_eq_ok {pre : MultiMappings} {r : List String} :
    gatherInputs pre = .ok r ↔
      (∀ e ∈ pre.entries, e.2.Nodup) ∧ r = pre.entries.foldl (fun g e => appendNew g e.2) [] := by
  unfold gatherInputs
  generalize ([] : List String) = g
  induction pre.entries generalizing g with
  | nil => simp [pure,Except.pure,eq_comm]
  | cons e es ih => simp [List.foldlM_cons,bind_eq_ok,pushInputs_eq_ok,ih,and_assoc]

theorem mem_appendNew {gathered names : List String} {t : String} :
    t ∈ appendNew gathered names ↔ t ∈ gathered ∨ t ∈ names := by
  induction names generalizing gathered with
  | nil => simp [appendNew]
  | cons n names ih =>
    simp only [appendNew,List.foldl_cons] at ih ⊢
    by_cases hn : n ∈ gathered
    · rw [if_pos hn,ih,List.mem_cons]
      constructor
      · exact fun h => h.imp_right .inr
      · rintro (h | rfl | h)
        exacts [.inl h,.inl hn,.inr h]
    · simp only [if_neg hn,ih,List.mem_append,List.mem_singleton,List.mem_cons]
      tauto

theorem nodup_appendNew {gathered : List String} (names : List String) (hg : gathered.Nodup) :
    (appendNew gathered names).Nodup := by
  induction names generalizing gathered with
  | nil => exact hg
  | cons n names ih =>
    simp only [appendNew,List.foldl_cons] at ih ⊢
    split
    · exact ih hg
    · exact ih (List.nodup_append.mpr ⟨hg,by simp,by simpa⟩)

theorem gathered_inputs (es : List (String × List String)) {g : List String} (hg : g.Nodup) :
    (es.foldl (fun g e => appendNew g e.2) g).Nodup ∧
      ∀ t, t ∈ es.foldl (fun g e => appendNew g e.2) g ↔ t ∈ g ∨ t ∈ es.flatMap (·.2) := by
  induction es generalizing g with
  | nil => simpa using hg
  | cons e es ih =>
    obtain ⟨hn,hm⟩ := ih (nodup_appendNew e.2 hg)
    refine ⟨hn,fun t => ?_⟩
    simp only [List.foldl_cons,hm,mem_appendNew,List.flatMap_cons,List.mem_append,or_assoc]

theorem pushOutputs_eq_ok {mapName : String} {outputTensors r : List String}
    {entry : String × List String} (hg : outputTensors.Nodup) :
    pushOutputs mapName outputTensors entry = .ok r ↔
      (outputTensors ++ entry.2).Nodup ∧ r = outputTensors ++ entry.2 :=
  foldlM_pushTensor hg

theorem gatherOutputs_eq_ok {mapName : String} {m : MultiMappings} {r : List String} :
    gatherOutputs mapName m = .ok r ↔ m.tensors.Nodup ∧ r = m.tensors := by
  suffices h : ∀ (es : List (String × List String)) (g : List String), g.Nodup →
      (es.foldlM (pushOutputs mapName) g = .ok r ↔
        (g ++ es.flatMap (·.2)).Nodup ∧ r = g ++ es.flatMap (·.2)) from
    h m.entries [] List.nodup_nil
  intro es
  induction es with
  | nil => intro g hg; simp [pure,Except.pure,hg,eq_comm]
  | cons e es ih =>
    intro g hg
    rw [List.foldlM_cons,bind_eq_ok]
    constructor
    · rintro ⟨g',h₁,h₂⟩
      obtain ⟨hn,rfl⟩ := (pushOutputs_eq_ok hg).mp h₁
      simpa using (ih _ hn).mp h₂
    · rintro ⟨hn,rfl⟩
      have hn' : (g ++ e.2 ++ es.flatMap (·.2)).Nodup := by simpa using hn
      have he := hn'.sublist (List.sublist_append_left _ _)
      exact ⟨g ++ e.2,(pushOutputs_eq_ok hg).mpr ⟨he,rfl⟩,(ih _ he).mpr ⟨hn',by simp⟩⟩

theorem namesCheck_eq_ok {tensors : List String} {mapName kind : String} {seen names : List String} :
    namesCheck tensors mapName kind seen names = .ok () ↔
      names.Nodup ∧ ∀ n ∈ names, n ∈ tensors ∧ n ∉ seen := by
  induction names generalizing seen with
  | nil => simp [namesCheck]
  | cons name names ih =>
    simp only [namesCheck,bind_unit_eq_ok,failIf_eq_ok,decide_eq_false_iff_not,not_not,ih,
      List.nodup_cons,List.forall_mem_cons]
    simp only [List.mem_cons,not_or]
    constructor
    · exact fun ⟨ht,hs,hn,h⟩ => ⟨⟨fun hm => (h name hm).2.1 rfl,hn⟩,⟨ht,hs⟩,
        fun n hm => ⟨(h n hm).1,(h n hm).2.2⟩⟩
    · exact fun ⟨⟨hm,hn⟩,⟨ht,hs⟩,h⟩ => ⟨ht,hs,hn,
        fun n hn' => ⟨(h n hn').1,fun e => hm (e ▸ hn'),(h n hn').2⟩⟩

theorem resolveNames_eq_ok {tensors : List String} {mapName kind : String} {names r : List String} :
    resolveNames tensors mapName kind names = .ok r ↔
      (names = [] ∨ names.Nodup ∧ ∀ n ∈ names, n ∈ tensors) ∧
        r = if names = [] then tensors else names := by
  by_cases hn : names = []
  · simp [resolveNames,hn,eq_comm]
  · rw [resolveNames,if_neg (by simpa using hn)]
    simp only [bind_unit_eq_ok,namesCheck_eq_ok,pure_eq_ok,List.not_mem_nil,not_false_eq_true,and_true,
      hn,false_or,if_false]
    exact and_congr_right fun _ => eq_comm

/-- The names a check leaves, the gathered `tensors` or the configured `names`, are nonempty,
without a repeat and among the names `S` of the map, when the gathered ones are. -/
theorem resolved_names {tensors names S r : List String} (hne : tensors ≠ []) (hnd : tensors.Nodup)
    (hmem : ∀ n ∈ tensors, n ∈ S) (hn : names = [] ∨ names.Nodup ∧ ∀ n ∈ names, n ∈ S)
    (hr : r = if names = [] then tensors else names) : r ≠ [] ∧ r.Nodup ∧ ∀ n ∈ r, n ∈ S := by
  subst hr
  split
  · exact ⟨hne,hnd,hmem⟩
  · exact ⟨‹_›,(hn.resolve_left ‹_›).1,(hn.resolve_left ‹_›).2⟩

theorem MappingsValid.exists_tensor {m : MultiMappings} (h : MappingsValid m) : ∃ t, t ∈ m.tensors := by
  obtain ⟨e,he⟩ := List.exists_mem_of_ne_nil _ h.1
  obtain ⟨t,ht⟩ := List.exists_mem_of_ne_nil _ (h.2 e he).2
  exact ⟨t,StdMap.mem_tensors.mpr ⟨e,he,ht⟩⟩

/-! ### `inference_validity_check` -/

/-- The tests of `inference_validity_check` on the three maps, before any name is gathered. -/
def mapsCheck (fileExists : String → Bool) (modelPathMap : Mappings)
    (preProcessorMap inferenceMap : MultiMappings) : Except String Unit := do
  failIf modelPathMap.entries.isEmpty "Model path map is empty"
  modelPathMap.entries.forM fun (model,path) => do
    failIf model.isEmpty "Empty key entry in model_path_map"
    failIf (!fileExists path) ("Invalid file path: " ++ path ++ " for model: " ++ model)
  asCheck (checkMultiMappingsSizeValue preProcessorMap "pre_processor_map")
  asCheck (checkMultiMappingsSizeValue inferenceMap "inference_map")
  failIf (!(modelPathMap.entries.length == preProcessorMap.entries.length &&
      preProcessorMap.entries.length == inferenceMap.entries.length))
    ("Size mismatch. model_path_map, pre_processor_map, inference_map, in_tensor_name, " ++
      "out_tensor_names must be of same size.")
  modelPathMap.entries.forM fun (model,_) => do
    failIf (!preProcessorMap.contains model) ("Model keyword: " ++ model ++ " not in pre_processor_map")
    failIf (!inferenceMap.contains model) ("Model keyword: " ++ model ++ " not in inference_map")

def inputNames (fileExists : String → Bool) (modelPathMap : Mappings)
    (preProcessorMap inferenceMap : MultiMappings) (inTensorNames : List String) :
    Except String (List String) := do
  mapsCheck fileExists modelPathMap preProcessorMap inferenceMap
  let inputTensors ← gatherInputs preProcessorMap
  resolveNames inputTensors "pre_processor map" "input" inTensorNames

def outputNames (inferenceMap : MultiMappings) (outTensorNames : List String) :
    Except String (List String) := do
  let outputTensors ← gatherOutputs "inference_map" inferenceMap
  resolveNames outputTensors "inference map" "output" outTensorNames

/-- `inference_validity_check(model_path_map, pre_processor_map, inference_map, in_tensor_names,
out_tensor_names)`: the status it returns, and the two vectors of names it takes by reference as
the call leaves them. -/
def inferenceValidityCheck (fileExists : String → Bool) (modelPathMap : Mappings)
    (preProcessorMap inferenceMap : MultiMappings) (inTensorNames outTensorNames : List String) :
    InferStatus × List String × List String :=
  match inputNames fileExists modelPathMap preProcessorMap inferenceMap inTensorNames with
  | .error message => (⟨.hError,message⟩,inTensorNames,outTensorNames)
  | .ok inNames =>
    match outputNames inferenceMap outTensorNames with
    | .error message => (⟨.hError,message⟩,inNames,outTensorNames)
    | .ok outNames => (.success,inNames,outNames)

/-- What the tests on the three maps accept. -/
structure MapsValid (fileExists : String → Bool) (modelPathMap : Mappings)
    (preProcessorMap inferenceMap : MultiMappings) : Prop where
  models : modelPathMap.entries ≠ []
  modelPaths : ∀ e ∈ modelPathMap.entries, e.1 ≠ "" ∧ fileExists e.2 = true
  preProcessor : MultiValid preProcessorMap
  inference : MultiValid inferenceMap
  sizes : modelPathMap.entries.length = preProcessorMap.entries.length ∧
    preProcessorMap.entries.length = inferenceMap.entries.length
  keywords : ∀ e ∈ modelPathMap.entries, e.1 ∈ preProcessorMap.keys ∧ e.1 ∈ inferenceMap.keys

structure InferenceValid (fileExists : String → Bool) (modelPathMap : Mappings)
    (preProcessorMap inferenceMap : MultiMappings) (inTensorNames outTensorNames : List String)
    extends MapsValid fileExists modelPathMap preProcessorMap inferenceMap : Prop where
  inputs : ∀ e ∈ preProcessorMap.entries, e.2.Nodup
  outputs : inferenceMap.tensors.Nodup
  inNames : inTensorNames = [] ∨
    inTensorNames.Nodup ∧ ∀ n ∈ inTensorNames, n ∈ preProcessorMap.tensors
  outNames : outTensorNames = [] ∨
    outTensorNames.Nodup ∧ ∀ n ∈ outTensorNames, n ∈ inferenceMap.tensors

section Inference
variable {fileExists : String → Bool} {modelPathMap : Mappings}
  {preProcessorMap inferenceMap : MultiMappings}
  {inTensorNames outTensorNames : List String}

theorem asCheck_checkMultiMappingsSizeValue {m : MultiMappings} {typeOfMap : String} :
    asCheck (checkMultiMappingsSizeValue m typeOfMap) = .ok () ↔ MultiValid m := by
  rw [← @checkMultiMappingsSizeValue_eq_success m typeOfMap,checkMultiMappingsSizeValue,asCheck_returned,
    returned_eq_success]

theorem mapsCheck_eq_ok :
    mapsCheck fileExists modelPathMap preProcessorMap inferenceMap = .ok () ↔
      MapsValid fileExists modelPathMap preProcessorMap inferenceMap := by
  simp only [mapsCheck,bind_unit_eq_ok,failIf_eq_ok,forM_eq_ok,asCheck_checkMultiMappingsSizeValue,
    Prod.forall,Bool.not_eq_false',Bool.and_eq_true,beq_iff_eq,StdMap.contains_iff,List.isEmpty_eq_false,
    string_isEmpty_eq_false]
  constructor
  · exact fun ⟨hm,hp,hpre,hinf,hs,hk⟩ =>
      ⟨hm,fun e he => hp e.1 e.2 he,hpre,hinf,hs,fun e he => hk e.1 e.2 he⟩
  · exact fun ⟨hm,hp,hpre,hinf,hs,hk⟩ =>
      ⟨hm,fun k p he => hp (k,p) he,hpre,hinf,hs,fun k p he => hk (k,p) he⟩

theorem inputNames_eq_ok {r : List String} :
    inputNames fileExists modelPathMap preProcessorMap inferenceMap inTensorNames = .ok r ↔
      MapsValid fileExists modelPathMap preProcessorMap inferenceMap ∧
      (∀ e ∈ preProcessorMap.entries, e.2.Nodup) ∧
      (inTensorNames = [] ∨ inTensorNames.Nodup ∧ ∀ n ∈ inTensorNames, n ∈ preProcessorMap.tensors) ∧
      r = if inTensorNames = [] then preProcessorMap.entries.foldl (fun g e => appendNew g e.2) []
        else inTensorNames := by
  have hmem : ∀ n, n ∈ preProcessorMap.entries.foldl (fun g e => appendNew g e.2) [] ↔
      n ∈ preProcessorMap.tensors := fun n => by
    simpa [StdMap.tensors] using (gathered_inputs preProcessorMap.entries List.nodup_nil).2 n
  simp only [inputNames,bind_unit_eq_ok,mapsCheck_eq_ok]
  simp only [bind_eq_ok,gatherInputs_eq_ok,resolveNames_eq_ok]
  constructor
  · rintro ⟨hm,_,⟨hi,rfl⟩,hn,rfl⟩
    exact ⟨hm,hi,by simpa only [hmem] using hn,rfl⟩
  · rintro ⟨hm,hi,hn,rfl⟩
    exact ⟨hm,_,⟨hi,rfl⟩,by simpa only [hmem] using hn,rfl⟩

theorem outputNames_eq_ok {r : List String} :
    outputNames inferenceMap outTensorNames = .ok r ↔
      inferenceMap.tensors.Nodup ∧
      (outTensorNames = [] ∨ outTensorNames.Nodup ∧ ∀ n ∈ outTensorNames, n ∈ inferenceMap.tensors) ∧
      r = if outTensorNames = [] then inferenceMap.tensors else outTensorNames := by
  simp only [outputNames,bind_eq_ok,gatherOutputs_eq_ok,resolveNames_eq_ok]
  constructor
  · rintro ⟨_,⟨ho,rfl⟩,hn⟩
    exact ⟨ho,hn⟩
  · rintro ⟨ho,hn⟩
    exact ⟨_,⟨ho,rfl⟩,hn⟩

theorem inferenceValidityCheck_eq_success {inNames outNames : List String} :
    inferenceValidityCheck fileExists modelPathMap preProcessorMap inferenceMap inTensorNames
        outTensorNames = (.success,inNames,outNames) ↔
      inputNames fileExists modelPathMap preProcessorMap inferenceMap inTensorNames = .ok inNames ∧
      outputNames inferenceMap outTensorNames = .ok outNames := by
  unfold inferenceValidityCheck
  rcases inputNames fileExists modelPathMap preProcessorMap inferenceMap inTensorNames with _ | _ <;>
    rcases outputNames inferenceMap outTensorNames with _ | _ <;>
    simp [InferStatus.success]

theorem inferenceValidityCheck_valid
    (h : (inferenceValidityCheck fileExists modelPathMap preProcessorMap inferenceMap inTensorNames
      outTensorNames).1 = .success) :
    InferenceValid fileExists modelPathMap preProcessorMap inferenceMap inTensorNames outTensorNames := by
  obtain ⟨h₁,h₂⟩ := inferenceValidityCheck_eq_success.mp (Prod.ext h rfl)
  obtain ⟨hm,hi,hn,-⟩ := inputNames_eq_ok.mp h₁
  obtain ⟨ho,hn',-⟩ := outputNames_eq_ok.mp h₂
  exact ⟨hm,hi,ho,hn,hn'⟩

theorem inferenceValidityCheck_of_valid
    (h : InferenceValid fileExists modelPathMap preProcessorMap inferenceMap inTensorNames outTensorNames) :
    (inferenceValidityCheck fileExists modelPathMap preProcessorMap inferenceMap inTensorNames
      outTensorNames).1 = .success := by
  rw [inferenceValidityCheck_eq_success.mpr
    ⟨inputNames_eq_ok.mpr ⟨h.toMapsValid,h.inputs,h.inNames,rfl⟩,
      outputNames_eq_ok.mpr ⟨h.outputs,h.outNames,rfl⟩⟩]

/-- `inference_validity_check` succeeds exactly on the configurations `InferenceValid` describes. -/
theorem inferenceValidityCheck_success_iff :
    (inferenceValidityCheck fileExists modelPathMap preProcessorMap inferenceMap inTensorNames
      outTensorNames).1 = .success ↔
      InferenceValid fileExists modelPathMap preProcessorMap inferenceMap inTensorNames outTensorNames :=
  ⟨inferenceValidityCheck_valid,inferenceValidityCheck_of_valid⟩

theorem MapsValid.keys_perm (h : MapsValid fileExists modelPathMap preProcessorMap inferenceMap) :
    modelPathMap.keys.Perm preProcessorMap.keys ∧ modelPathMap.keys.Perm inferenceMap.keys := by
  have hk : ∀ k ∈ modelPathMap.keys, k ∈ preProcessorMap.keys ∧ k ∈ inferenceMap.keys := by
    simp only [StdMap.keys,List.mem_map]
    rintro _ ⟨e,he,rfl⟩
    simpa only [StdMap.keys,List.mem_map] using h.keywords e he
  exact ⟨(List.subperm_of_subset modelPathMap.keys_nodup fun k hm => (hk k hm).1).perm_of_length_le
      (by simp [StdMap.keys,h.sizes.1]),
    (List.subperm_of_subset modelPathMap.keys_nodup fun k hm => (hk k hm).2).perm_of_length_le
      (by simp [StdMap.keys,h.sizes.1,h.sizes.2])⟩

def singleModelPaths : Mappings := ⟨[("m","m.onnx")],by decide⟩

def singleModelInputs : MultiMappings := ⟨[("m",["in"])],by decide⟩

def singleModelOutputs : MultiMappings := ⟨[("m",["out"])],by decide⟩

/-- A name configured twice is refused, with the message of the second. -/
example : (inferenceValidityCheck (fun _ => true) singleModelPaths singleModelInputs singleModelOutputs
    ["in","in"] []).1 = ⟨.hError,"Duplicate entry for: in in input tensor names"⟩ := by rfl

theorem inferenceValidityCheck_same_keys
    (h : (inferenceValidityCheck fileExists modelPathMap preProcessorMap inferenceMap inTensorNames
      outTensorNames).1 = .success) :
    modelPathMap.keys.Perm preProcessorMap.keys ∧ modelPathMap.keys.Perm inferenceMap.keys :=
  (inferenceValidityCheck_valid h).keys_perm

theorem singleModel_same_keys :
    (inferenceValidityCheck (fun _ => true) singleModelPaths singleModelInputs singleModelOutputs [] []).1 =
        .success ∧
      singleModelPaths.keys.Perm singleModelInputs.keys ∧
        singleModelPaths.keys.Perm singleModelOutputs.keys :=
  have h : (inferenceValidityCheck (fun _ => true) singleModelPaths singleModelInputs singleModelOutputs
      [] []).1 = .success := by rfl
  ⟨h,inferenceValidityCheck_same_keys h⟩

/-- After a successful check the two vectors of names are nonempty, without a repeat, and name
tensors of their maps: `in_tensor_names` as configured, or else each name of `pre_processor_map`
once; `out_tensor_names` as configured, or else every name of `inference_map` in order. -/
theorem inferenceValidityCheck_resolves_names {inNames outNames : List String}
    (h : inferenceValidityCheck fileExists modelPathMap preProcessorMap inferenceMap inTensorNames
      outTensorNames = (.success,inNames,outNames)) :
    (inTensorNames ≠ [] → inNames = inTensorNames) ∧
      (inTensorNames = [] → ∀ n, n ∈ inNames ↔ n ∈ preProcessorMap.tensors) ∧
      inNames ≠ [] ∧ inNames.Nodup ∧ (∀ n ∈ inNames, n ∈ preProcessorMap.tensors) ∧
      outNames = (if outTensorNames = [] then inferenceMap.tensors else outTensorNames) ∧
      outNames ≠ [] ∧ outNames.Nodup ∧ ∀ n ∈ outNames, n ∈ inferenceMap.tensors := by
  obtain ⟨h₁,h₂⟩ := inferenceValidityCheck_eq_success.mp h
  obtain ⟨hm,-,hn,rfl⟩ := inputNames_eq_ok.mp h₁
  obtain ⟨ho,hn',rfl⟩ := outputNames_eq_ok.mp h₂
  obtain ⟨hnd,hmem⟩ := gathered_inputs preProcessorMap.entries List.nodup_nil
  have hmem' : ∀ n, n ∈ preProcessorMap.entries.foldl (fun g e => appendNew g e.2) [] ↔
      n ∈ preProcessorMap.tensors := fun n => by simpa [StdMap.tensors] using hmem n
  obtain ⟨t,ht⟩ := hm.preProcessor.1.exists_tensor
  obtain ⟨t',ht'⟩ := hm.inference.1.exists_tensor
  obtain ⟨i₁,i₂,i₃⟩ :=
    resolved_names (List.ne_nil_of_mem ((hmem' t).mpr ht)) hnd (fun n => (hmem' n).mp) hn rfl
  obtain ⟨o₁,o₂,o₃⟩ := resolved_names (List.ne_nil_of_mem ht') ho (fun _ => id) hn' rfl
  exact ⟨fun hi => if_neg hi,fun hi n => by rw [if_pos hi,hmem'],i₁,i₂,i₃,rfl,o₁,o₂,o₃⟩

theorem singleModel_names_resolved :
    inferenceValidityCheck (fun _ => true) singleModelPaths singleModelInputs singleModelOutputs [] [] =
        (.success,["in"],["out"]) ∧
      ∀ n, n ∈ ["in"] ↔ n ∈ singleModelInputs.tensors :=
  have h : inferenceValidityCheck (fun _ => true) singleModelPaths singleModelInputs singleModelOutputs
      [] [] = (.success,["in"],["out"]) := by rfl
  ⟨h,(inferenceValidityCheck_resolves_names h).2.1 rfl⟩

end Inference

/-! ### `processor_validity_check` -/

/-- `processor_validity_check(processed_map, in_tensor_names, out_tensor_names)`. With no output
names the source sets `"WARNING: Output tensor names empty"` on a status it does not return, and
returns `InferStatus()`. -/
def processorValidityCheck (processedMap : MultiMappings) (inTensorNames outTensorNames : List String) :
    InferStatus :=
  returned do
    failIf inTensorNames.isEmpty "Input tensor names cannot be empty"
    if outTensorNames.isEmpty then pure ()
    else do
      asCheck (checkMultiMappingsSizeValue processedMap "processed_map")
      let outputTensors ← gatherOutputs "processed_map." processedMap
      namesCheck outputTensors "processed_map." "output" [] outTensorNames

/-- What `processor_validity_check` accepts: input names, and, when there are output names, a
valid `processed_map` with no name twice that holds each output name, itself given once. -/
def ProcessorValid (processedMap : MultiMappings) (inTensorNames outTensorNames : List String) : Prop :=
  inTensorNames ≠ [] ∧
    (outTensorNames = [] ∨ MultiValid processedMap ∧ processedMap.tensors.Nodup ∧
      outTensorNames.Nodup ∧ ∀ n ∈ outTensorNames, n ∈ processedMap.tensors)

theorem processorValidityCheck_success_iff {processedMap : MultiMappings}
    {inTensorNames outTensorNames : List String} :
    processorValidityCheck processedMap inTensorNames outTensorNames = .success ↔
      ProcessorValid processedMap inTensorNames outTensorNames := by
  simp only [processorValidityCheck,ProcessorValid,returned_eq_success,bind_unit_eq_ok,failIf_eq_ok,
    List.isEmpty_eq_false]
  refine and_congr_right fun _ => ?_
  by_cases ho : outTensorNames = []
  · simp [ho,pure,Except.pure]
  · rw [if_neg (by simpa using ho)]
    simp only [bind_unit_eq_ok,asCheck_checkMultiMappingsSizeValue]
    simp only [bind_eq_ok,gatherOutputs_eq_ok,namesCheck_eq_ok,List.not_mem_nil,not_false_eq_true,and_true,
      ho,false_or]
    constructor
    · rintro ⟨hv,_,⟨hn,rfl⟩,hd,hm⟩
      exact ⟨hv,hn,hd,hm⟩
    · rintro ⟨hv,hn,hd,hm⟩
      exact ⟨hv,_,⟨hn,rfl⟩,hd,hm⟩

/-- Without output names the check passes whatever `processed_map` holds, even nothing. -/
example : processorValidityCheck ⟨[],by decide⟩ ["in"] [] = .success := by rfl

end InferValidity
end HoloscanLowering
