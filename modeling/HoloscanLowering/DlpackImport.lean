import HoloscanLowering.Except

/-! Importing a tensor through DLPack (`PyTensor::from_dlpack`, python/holoscan/core/tensor.cpp)
and the stream check of the CUDA array interface (`process_array_interface_stream`). The capsule
objects of the interpreter form a heap; the producer is the Python object, given as what its
`__dlpack_device__` returns and what its `__dlpack__` returns for each list of keyword arguments:
new capsules, and the capsule handed back, one of those or one the heap already holds. The
device type codes and the capsule names are those of the DLPack header; the version numbers come
from headers outside the sources and are an argument. -/
namespace HoloscanLowering.TensorInterop

def kDLCPU : Int := 1
def kDLCUDA : Int := 2
def kDLCUDAHost : Int := 3
def kDLCUDAManaged : Int := 13

def dlpackCapsuleName : String := "dltensor"
def dlpackVersionedCapsuleName : String := "dltensor_versioned"
def usedDlpackCapsuleName : String := "used_dltensor"
def usedDlpackVersionedCapsuleName : String := "used_dltensor_versioned"

/-- `DLPACK_MAJOR_VERSION`, and the version `HOLOSCAN_DLPACK_IMPL_VERSION_MAJOR` and `_MINOR`
that `from_dlpack` asks for. -/
structure Versions where
  dlpackMajor : Nat
  implMajor : Nat
  implMinor : Nat

/-- The keyword arguments of one call of `__dlpack__`, `none` where the call does not pass one;
`copy` is passed as Python `None` (`some none`) or as a bool. -/
structure DlpackArgs where
  stream : Option Int
  maxVersion : Option (Nat × Nat)
  copy : Option (Option Bool)
  deriving DecidableEq

def DlpackArgs.noArgs : DlpackArgs := ⟨none,none,none⟩

inductive PyError
  | typeError
  | other (what : String)
  deriving DecidableEq

/-- What `from_dlpack` raises: a `pybind11::value_error`, a `std::runtime_error`, a
`pybind11::type_error`, the `pybind11::cast_error` of a cast to the C++ type named, or the
producer's own exception. -/
inductive Raised
  | valueError (msg : String)
  | runtimeError (msg : String)
  | typeError (msg : String)
  | castError (cppType : String)
  | reraised (e : PyError)
  deriving DecidableEq

/-- `py::object::cast` of a Python int to a signed C++ integer type of `bits` bits. -/
def castSigned (cppType : String) (bits : Nat) (x : Int) : Except Raised Int :=
  if -2 ^ (bits - 1) ≤ x ∧ x < 2 ^ (bits - 1) then .ok x else .error (.castError cppType)

def castInt : Int → Except Raised Int := castSigned "int" 32
def castInt32 : Int → Except Raised Int := castSigned "int32_t" 32
def castInt64 : Int → Except Raised Int := castSigned "int64_t" 64

/-- A capsule object: its name, the managed tensor it points to, the major version of that tensor
where it is a `DLManagedTensorVersioned`, and whether it still has its destructor. -/
structure Capsule (τ : Type) where
  name : String
  tensor : τ
  major : Nat
  destructor : Bool
  deriving DecidableEq

abbrev Heap (τ : Type) := List (Capsule τ)

def Capsule.isValid {τ : Type} (c : Capsule τ) : Bool :=
  c.name == dlpackVersionedCapsuleName || c.name == dlpackCapsuleName

def Capsule.isUsed {τ : Type} (c : Capsule τ) : Bool :=
  c.name == usedDlpackCapsuleName || c.name == usedDlpackVersionedCapsuleName

/-- `PyCapsule_SetName(used_name)` and `PyCapsule_SetDestructor(nullptr)`. -/
def Capsule.markUsed {τ : Type} (c : Capsule τ) : Capsule τ :=
  { c with name := if c.name == dlpackVersionedCapsuleName then usedDlpackVersionedCapsuleName
                   else usedDlpackCapsuleName,
           destructor := false }

/-- What a call of `__dlpack__` on heap `h` returns: the capsules it made, and the capsule it
hands back, of `h` or of those. -/
structure Returned {τ : Type} (h : Heap τ) where
  new : List (Capsule τ)
  id : Fin (h.length + new.length)

/-- The object `from_dlpack` imports from: `__dlpack_device__` (`none` where the attribute is
`None`) and the answer of `__dlpack__` to each list of keyword arguments on each heap. -/
structure Producer (τ : Type) where
  dlpackDevice : Option (Int × Int)
  dlpack : DlpackArgs → (h : Heap τ) → Except PyError (Returned h)

/-- The tensor `from_dlpack` wraps: the managed tensor, the device it is given, whether it came
versioned, and the capsule it was taken from. -/
structure Imported (τ : Type) where
  tensor : τ
  device : Int × Int
  versioned : Bool
  capsule : Nat
  deriving DecidableEq

variable {τ : Type}

section Returned

variable {h : Heap τ} (r : Returned h)

def Returned.heap : Heap τ := h ++ r.new

def Returned.capsule : Capsule τ :=
  r.heap.get ⟨r.id,by simp only [Returned.heap,List.length_append]; exact r.id.isLt⟩

theorem Returned.getElem?_id : r.heap[r.id.val]? = some r.capsule := by
  simp [Returned.capsule]

end Returned

variable (v : Versions) (p : Producer τ)

/-- The call of `__dlpack__` with the DLPack 1.0 keywords, retried without them (keeping the
stream) where the producer raises a `TypeError`. -/
def requestCapsule (h : Heap τ) (stream : Option Int) (copy : Option Bool) : Except Raised (Returned h) :=
  match p.dlpack ⟨stream,some (v.implMajor,v.implMinor),some copy⟩ h with
  | .ok r => .ok r
  | .error .typeError =>
    if copy.isSome then .error (.typeError "copy kwarg not supported")
    else (p.dlpack ⟨stream,none,none⟩ h).mapError .reraised
  | .error e => .error (.reraised e)

def negotiate (h : Heap τ) (deviceType : Int) (copy : Option Bool) : Except Raised (Returned h) :=
  if deviceType = kDLCUDA ∨ deviceType = kDLCUDAManaged then requestCapsule v p h (some 1) copy
  else if deviceType = kDLCPU ∨ deviceType = kDLCUDAHost then requestCapsule v p h none copy
  else .error (.runtimeError ("Unsupported device type: " ++ toString deviceType))

/-- The checks made of the capsule `id` of `h`, `c`, and the tensor wrapped from it. -/
def consumeCapsule (h : Heap τ) (id : Nat) (c : Capsule τ) (device : Int × Int) :
    Heap τ × Except Raised (Imported τ) :=
  let isVersioned := c.name == dlpackVersionedCapsuleName
  if !isVersioned && c.name != dlpackCapsuleName then
    (h,.error (.runtimeError ("Received an invalid DLPack capsule ('" ++ c.name ++
      "'). You might have already consumed the DLPack capsule.")))
  else if isVersioned && v.dlpackMajor < c.major then
    (h,.error (.runtimeError "DLPack version not supported"))
  else (h.set id c.markUsed,.ok ⟨c.tensor,device,isVersioned,id⟩)

/-- `PyTensor::from_dlpack(obj, device, copy)` on heap `h`: the capsule the negotiating call
returns is dropped, and the one consumed is what a second call of `__dlpack__` with no arguments
returns. -/
def fromDlpack (h : Heap τ) (device : Option (Int × Int)) (copy : Option Bool) :
    Heap τ × Except Raised (Imported τ) :=
  if device.isSome then
    (h,.error (.valueError "from_dlpack() does not support non-default device kwarg yet."))
  else match p.dlpackDevice with
    | none => (h,.error (.runtimeError "DLPack device is not set"))
    | some (deviceType,deviceId) =>
      match castInt deviceType, castInt32 deviceId with
      | .error e, _ | _, .error e => (h,.error e)
      | .ok deviceType, .ok deviceId =>
        match negotiate v p h deviceType copy with
        | .error e => (h,.error e)
        | .ok r₁ =>
          match p.dlpack .noArgs r₁.heap with
          | .error e => (r₁.heap,.error (.reraised e))
          | .ok r₂ => consumeCapsule v r₂.heap r₂.id r₂.capsule (deviceType,deviceId)

structure Request (τ : Type) where
  producer : Producer τ
  device : Option (Int × Int)
  copy : Option Bool

def fromDlpacks (h : Heap τ) : List (Request τ) → Heap τ × List (Except Raised (Imported τ))
  | [] => (h,[])
  | q::qs =>
    let r := fromDlpack v q.producer h q.device q.copy
    let rs := fromDlpacks r.1 qs
    (rs.1,r.2::rs.2)

def imported (rs : List (Except Raised (Imported τ))) : List Nat :=
  rs.filterMap fun r => r.toOption.map (·.capsule)

/-! ### One call -/

theorem isUsed_markUsed (c : Capsule τ) : c.markUsed.isUsed = true := by
  unfold Capsule.markUsed Capsule.isUsed
  split_ifs <;> simp

theorem not_isValid_of_isUsed {c : Capsule τ} (h : c.isUsed = true) : c.isValid = false := by
  unfold Capsule.isUsed at h
  unfold Capsule.isValid
  rcases Bool.or_eq_true_iff.mp h with h | h <;> simp only [beq_iff_eq] at h <;> simp [h] <;> decide

theorem consumeCapsule_cases (h : Heap τ) (id : Nat) (c : Capsule τ) (device : Int × Int) :
    (∃ e, consumeCapsule v h id c device = (h,.error e)) ∨
      c.isValid = true ∧
        consumeCapsule v h id c device = (h.set id c.markUsed,.ok ⟨c.tensor,device,c.name == dlpackVersionedCapsuleName,id⟩) := by
  dsimp only [consumeCapsule]
  split_ifs with h₁ h₂
  · exact .inl ⟨_,rfl⟩
  · exact .inl ⟨_,rfl⟩
  · refine .inr ⟨?_,rfl⟩
    unfold Capsule.isValid
    cases hv : (c.name == dlpackVersionedCapsuleName) <;> simp_all

/-- A call adds the capsules the producer made, and renames at most the one it imports, which
had a valid name. -/
theorem fromDlpack_cases (h : Heap τ) (device : Option (Int × Int)) (copy : Option Bool) :
    (∃ new e, fromDlpack v p h device copy = (h ++ new,.error e)) ∨
      ∃ new i c, (h ++ new)[i.capsule]? = some c ∧ c.isValid = true ∧
        fromDlpack v p h device copy = ((h ++ new).set i.capsule c.markUsed,.ok i) := by
  have keep : ∀ e, ∃ new e', ((h,.error e) : Heap τ × Except Raised (Imported τ)) = (h ++ new,.error e') :=
    fun e => ⟨[],e,by simp⟩
  unfold fromDlpack
  split_ifs
  · exact .inl (keep _)
  split
  · exact .inl (keep _)
  split
  · exact .inl (keep _)
  · exact .inl (keep _)
  split
  · exact .inl (keep _)
  rename_i r₁ _
  split
  · exact .inl ⟨r₁.new,_,rfl⟩
  rename_i r₂ _
  have hheap : r₂.heap = h ++ (r₁.new ++ r₂.new) := by simp [Returned.heap]
  rcases consumeCapsule_cases v r₂.heap r₂.id r₂.capsule _ with ⟨e,he⟩ | ⟨hv,he⟩
  · exact .inl ⟨r₁.new ++ r₂.new,e,by rw [he,hheap]⟩
  · exact .inr ⟨r₁.new ++ r₂.new,⟨_,_,_,r₂.id⟩,r₂.capsule,by rw [← hheap]; exact r₂.getElem?_id,hv,
      by rw [he,hheap]⟩

/-! ### Every run consumes a capsule at most once -/

/-- The capsules consumed so far: each once, each left with a used name and no destructor. -/
structure Consumed (h : Heap τ) (ids : List Nat) : Prop where
  nodup : ids.Nodup
  used : ∀ id ∈ ids, ∃ c, h[id]? = some c ∧ c.isUsed = true ∧ c.destructor = false

theorem getElem?_append_of_getElem? {l m : List (Capsule τ)} {i : Nat} {c : Capsule τ}
    (h : l[i]? = some c) : (l ++ m)[i]? = some c := by
  rw [List.getElem?_append_left (List.getElem?_eq_some_iff.mp h).1,h]

theorem Consumed.fromDlpack {h : Heap τ} {ids : List Nat} (hc : Consumed h ids)
    (device : Option (Int × Int)) (copy : Option Bool) :
    Consumed (fromDlpack v p h device copy).1
      (ids ++ ((fromDlpack v p h device copy).2.toOption.map (·.capsule)).toList) := by
  rcases fromDlpack_cases v p h device copy with ⟨new,e,he⟩ | ⟨new,i,c,hget,hv,he⟩
  · rw [he]
    refine ⟨by simpa [Except.toOption] using hc.nodup,fun id hid => ?_⟩
    obtain ⟨c,hget,hu,hd⟩ := hc.used id (by simpa [Except.toOption] using hid)
    exact ⟨c,getElem?_append_of_getElem? hget,hu,hd⟩
  · rw [he]
    simp only [Except.toOption,Option.map_some',Option.toList_some]
    have hfresh : i.capsule ∉ ids := fun hid => by
      obtain ⟨c',hget',hu,-⟩ := hc.used _ hid
      have := (getElem?_append_of_getElem? (m := new) hget').symm.trans hget
      cases this
      simp [not_isValid_of_isUsed hu] at hv
    have hlt := (List.getElem?_eq_some_iff.mp hget).1
    refine ⟨List.nodup_append.mpr ⟨hc.nodup,by simp,by simpa using hfresh⟩,fun id hid => ?_⟩
    rcases List.mem_append.mp hid with hid | hid
    · have hne : i.capsule ≠ id := fun e => hfresh (e ▸ hid)
      obtain ⟨c',hget',hu,hd⟩ := hc.used id hid
      exact ⟨c',by rw [List.getElem?_set_ne hne]; exact getElem?_append_of_getElem? hget',hu,hd⟩
    · obtain rfl : id = i.capsule := by simpa using hid
      exact ⟨c.markUsed,List.getElem?_set_self hlt,isUsed_markUsed c,rfl⟩

theorem imported_cons (r : Except Raised (Imported τ)) (rs : List (Except Raised (Imported τ))) :
    imported (r::rs) = (r.toOption.map (·.capsule)).toList ++ imported rs := by
  unfold imported
  rw [List.filterMap_cons]
  cases r.toOption.map (·.capsule) <;> rfl

theorem Consumed.fromDlpacks {h : Heap τ} {ids : List Nat} (hc : Consumed h ids) (qs : List (Request τ)) :
    Consumed (fromDlpacks v h qs).1 (ids ++ imported (fromDlpacks v h qs).2) := by
  induction qs generalizing h ids with
  | nil => simpa [TensorInterop.fromDlpacks,imported] using hc
  | cons q qs ih =>
    simpa [TensorInterop.fromDlpacks,imported_cons,List.append_assoc] using
      ih (hc.fromDlpack v q.producer q.device q.copy)

/-- Over any sequence of `from_dlpack` calls, on any producers and any heap, no capsule is
imported twice, and every imported capsule is left renamed as used and without its destructor:
the managed tensor has one owner. -/
theorem fromDlpacks_consume_once (h : Heap τ) (qs : List (Request τ)) :
    (imported (fromDlpacks v h qs).2).Nodup ∧
      ∀ id ∈ imported (fromDlpacks v h qs).2, ∃ c, (fromDlpacks v h qs).1[id]? = some c ∧
        c.isUsed = true ∧ c.destructor = false := by
  have := (Consumed.mk List.nodup_nil (by simp) : Consumed h []).fromDlpacks v qs
  rw [List.nil_append] at this
  exact ⟨this.nodup,this.used⟩

def cachedCapsule : (h : Heap Nat) → Except PyError (Returned h)
  | [] => .ok ⟨[⟨dlpackCapsuleName,7,0,true⟩],⟨0,by simp⟩⟩
  | _::_ => .ok ⟨[],⟨0,by simp⟩⟩

def cachingProducer : Producer Nat :=
  ⟨some (kDLCPU,0),fun _ h => cachedCapsule h⟩

/-- Its capsule is imported once; the second import finds it renamed. -/
example :
    (fromDlpacks ⟨1,1,0⟩ [] [⟨cachingProducer,none,none⟩,⟨cachingProducer,none,none⟩]).2 =
      [.ok ⟨7,(kDLCPU,0),false,0⟩,
       .error (.runtimeError "Received an invalid DLPack capsule (\x27used_dltensor\x27). You might have already consumed the DLPack capsule.")] :=
  rfl

/-- `process_array_interface_stream`: the stream to synchronize with the legacy default stream,
if any (`None` is -1; 1 and 2 name the legacy and the per-thread default stream). -/
def processArrayInterfaceStream (streamObj : Option Int) : Except Raised (Option Int) :=
  let streamId : Except Raised Int := match streamObj with
    | none => .ok (-1)
    | some n => castInt64 n
  match streamId with
  | .error e => .error e
  | .ok streamId =>
    if streamId < -1 then
      .error (.runtimeError ("Invalid stream, valid stream should be  None (no synchronization), 1 (legacy " ++
        "default stream), 2 (per-thread defaultstream), or a positive integer (stream pointer)"))
    else
      let streamPtr : Int := if streamId > 2 then streamId else 0
      .ok (if streamId ≥ 0 ∧ 0 ≠ streamPtr then some streamPtr else none)

theorem processArrayInterfaceStream_eq_some {streamObj : Option Int} {q : Int} :
    processArrayInterfaceStream streamObj = .ok (some q) ↔ streamObj = some q ∧ 2 < q ∧ q < 2 ^ 63 := by
  cases streamObj with
  | none => simp [processArrayInterfaceStream]
  | some n =>
    simp only [processArrayInterfaceStream,castInt64,castSigned,Option.some.injEq,Nat.reduceSub]
    by_cases hc : -2 ^ 63 ≤ n ∧ n < 2 ^ 63
    · rw [if_pos hc]
      dsimp only
      split_ifs <;> simp <;> omega
    · rw [if_neg hc]
      simp
      omega

end HoloscanLowering.TensorInterop
