import HoloscanLowering.Except

/-! The wire format of `holoscan::codec` (`codecs.hpp`): trivially copyable values as their
bytes, contiguous containers behind a `ContiguousDataHeader`, `std::vector<bool>` packed eight
bits to a byte, and nested vectors behind a `size_t` count. A trivially copyable value is its
object representation; `size_t` fields are little-endian and wrap at `2^64`. -/
namespace HoloscanLowering
namespace Codec

/-- Why a deserializer stops: the endpoint holds fewer bytes than a read asks for, or the code
touches memory outside a buffer, which is undefined behaviour: `count` bytes read into a buffer
of `capacity`, or the byte at `index` of a buffer of `length`. -/
inductive CodecError
  | endOfStream
  | overrun (count capacity : Nat)
  | outOfRange (index length : Nat)
  deriving DecidableEq, Repr

/-- Modelled from the spec: `Endpoint`, whose header is not among the sources, is a FIFO byte
stream. `write` appends its bytes and returns their count; `read` takes the first `n` bytes
and fails on a shorter stream. -/
def read (n : Nat) (s : List UInt8) : Except CodecError (List UInt8 × List UInt8) :=
  if n ≤ s.length then .ok (s.take n,s.drop n) else .error .endOfStream

def encodeLE : Nat → Nat → List UInt8
  | 0, _ => []
  | k+1, n => (n % 256).toUInt8 :: encodeLE k (n / 256)

def decodeLE : List UInt8 → Nat
  | [] => 0
  | b::bs => b.toNat + 256 * decodeLE bs

def readSizeT (s : List UInt8) : Except CodecError (Nat × List UInt8) :=
  (read 8 s).map fun r => (decodeLE r.1,r.2)

/-- `ContiguousDataHeader`, packed: a `size_t` element count and a `uint8_t` element size. -/
structure ContiguousDataHeader where
  size : Nat
  bytesPerElement : Nat
  deriving DecidableEq, Repr

def ContiguousDataHeader.encode (h : ContiguousDataHeader) : List UInt8 :=
  encodeLE 8 h.size ++ encodeLE 1 h.bytesPerElement

def ContiguousDataHeader.count (h : ContiguousDataHeader) : Nat := h.size * h.bytesPerElement % 2^64

def readHeader (s : List UInt8) : Except CodecError (ContiguousDataHeader × List UInt8) :=
  (read 9 s).map fun r => (⟨decodeLE (r.1.take 8),decodeLE (r.1.drop 8)⟩,r.2)

def elementsOf (sz : Nat) : Nat → List UInt8 → List (List UInt8)
  | 0, _ => []
  | n+1, mem => mem.take sz :: elementsOf sz n (mem.drop sz)

/-- `serialize_binary_blob` on elements of `sizeof` `sz`: `bytes_per_element` is a `uint8_t`
and keeps `sz % 256`; the write sends that many bytes per element from the start of the data.
The written bytes, and the size the call returns. -/
def serializeBinaryBlob (sz : Nat) (xs : List (List UInt8)) : List UInt8 × Nat :=
  let h : ContiguousDataHeader := ⟨xs.length % 2^64,if 0 < xs.length % 2^64 then sz % 256 else 1⟩
  let data := xs.flatten.take h.count
  (h.encode ++ data,h.encode.length + data.length)

def readInto (buf : List UInt8) (count : Nat) (s : List UInt8) :
    Except CodecError (List UInt8 × List UInt8) :=
  if buf.length < count then .error (.overrun count buf.length) else
  (read count s).map fun r => (r.1 ++ buf.drop count,r.2)

/-- The header, a buffer of `elements header` zeroed elements of `sz` bytes, and the read of
`header.count` bytes into it. -/
def readContiguous (sz : Nat) (elements : ContiguousDataHeader → Nat) (s : List UInt8) :
    Except CodecError (List (List UInt8) × List UInt8) :=
  readHeader s >>= fun r =>
  readInto (List.replicate (elements r.1 * sz) 0) r.1.count r.2 >>= fun m =>
  pure (elementsOf sz (elements r.1) m.1,m.2)

def deserializeBinaryBlob (sz : Nat) : List UInt8 → Except CodecError (List (List UInt8) × List UInt8) :=
  readContiguous sz (·.size)

/-- `deserialize_array` for `std::array<T, N>`: the buffer holds `N` elements whatever the
header says. The elements the read leaves are indeterminate in the code and zero here. -/
def deserializeArray (sz n : Nat) : List UInt8 → Except CodecError (List (List UInt8) × List UInt8) :=
  readContiguous sz fun _ => n

def packBit (data : List Bool) (packed : List UInt8) (i : Nat) : List UInt8 :=
  if data.getD i false then packed.modify (fun b => (b.toNat ||| 2^(i % 8)).toUInt8) (i / 8) else packed

/-- The loop over a buffer of `(num_bits + 7) / 8` zero bytes. -/
def packBits (data : List Bool) : List UInt8 :=
  (List.range data.length).foldl (packBit data) (List.replicate ((data.length % 2^64 + 7) % 2^64 / 8) 0)

def serializeBits (data : List Bool) : List UInt8 × Nat :=
  (encodeLE 8 (data.length % 2^64) ++ packBits data,8 + (packBits data).length)

/-- `packed_data[i / 8] & (1 << (i % 8))`: bit `i % 8` of byte `i / 8`. -/
def unpackBit (packed : List UInt8) (i : Nat) : Except CodecError Bool :=
  match packed[i / 8]? with
  | some b => .ok (b.toNat.testBit (i % 8))
  | none => .error (.outOfRange (i / 8) packed.length)

def deserializeBits (s : List UInt8) : Except CodecError (List Bool × List UInt8) :=
  readSizeT s >>= fun r =>
  read ((r.1 + 7) % 2^64 / 8) r.2 >>= fun p =>
  (List.range r.1).mapM (unpackBit p.1) >>= fun data =>
  pure (data,p.2)

def readMany {β : Type} (f : List UInt8 → Except CodecError (β × List UInt8)) :
    Nat → List UInt8 → Except CodecError (List β × List UInt8)
  | 0, s => .ok ([],s)
  | n+1, s => f s >>= fun r => readMany f n r.2 >>= fun rs => pure (r.1::rs.1,rs.2)

/-- The types `holoscan::codec` handles, by the codec that serializes them: `scalar`, any
trivially copyable type; `vector`, `std::vector<T>` of a trivially copyable `T` (`std::string`
and `CloudPickleSerializedObject` are vectors of one-byte elements); `array` for
`std::array<T, N>`; `vectorBool`; and `vectorOf`, the nested `std::vector<std::vector<...>>` and
`std::vector<std::string>`. Sizes are `sizeof(T)`. -/
inductive CodecType
  | scalar (size : Nat)
  | vector (size : Nat)
  | array (size n : Nat)
  | vectorBool
  | vectorOf (t : CodecType)
  deriving DecidableEq, Repr

def CodecType.string : CodecType := .vector 1

/-- A value: the bytes of a trivially copyable value, the elements of a contiguous container,
the bits of a `std::vector<bool>`, or the vectors of a nested vector. -/
inductive Value
  | bytes (b : List UInt8)
  | elems (xs : List (List UInt8))
  | bits (bs : List Bool)
  | seq (vs : List Value)
  deriving Repr

def Value.isOf : CodecType → Value → Bool
  | .scalar sz, .bytes b => b.length = sz
  | .vector sz, .elems xs => xs.length * sz < 2^64 && xs.length < 2^64 && xs.all (·.length = sz)
  | .array sz n, .elems xs => xs.length = n && n * sz < 2^64 && n < 2^64 && xs.all (·.length = sz)
  | .vectorBool, .bits bs => bs.length + 7 < 2^64
  | .vectorOf t, .seq vs => vs.length < 2^64 && vs.all (isOf t)
  | _, _ => false

/-- Every element type of `t` is smaller than 256 bytes. -/
def CodecType.smallElements : CodecType → Bool
  | .vector sz | .array sz _ => sz < 256
  | .vectorOf t => t.smallElements
  | _ => true

def serializeVectorOfVectors (f : Value → List UInt8 × Nat) (vs : List Value) : List UInt8 × Nat :=
  (encodeLE 8 (vs.length % 2^64) ++ (vs.map fun v => (f v).1).flatten,8 + (vs.map fun v => (f v).2).sum)

def deserializeVectorOfVectors {β : Type} (f : List UInt8 → Except CodecError (β × List UInt8))
    (s : List UInt8) : Except CodecError (List β × List UInt8) :=
  readSizeT s >>= fun r => readMany f r.1 r.2

/-- `codec<T>::serialize`: the bytes written and the size returned. -/
def serialize : CodecType → Value → List UInt8 × Nat
  | .scalar _, .bytes b => (b,b.length)
  | .vector sz, .elems xs => serializeBinaryBlob sz xs
  | .array sz _, .elems xs => serializeBinaryBlob sz xs
  | .vectorBool, .bits bs => serializeBits bs
  | .vectorOf t, .seq vs => serializeVectorOfVectors (serialize t) vs
  | _, _ => ([],0)

/-- `codec<T>::deserialize`: the value and the bytes left in the stream. -/
def deserialize : CodecType → List UInt8 → Except CodecError (Value × List UInt8)
  | .scalar sz, s => (read sz s).map fun r => (.bytes r.1,r.2)
  | .vector sz, s => (deserializeBinaryBlob sz s).map fun r => (.elems r.1,r.2)
  | .array sz n, s => (deserializeArray sz n s).map fun r => (.elems r.1,r.2)
  | .vectorBool, s => (deserializeBits s).map fun r => (.bits r.1,r.2)
  | .vectorOf t, s => (deserializeVectorOfVectors (deserialize t) s).map fun r => (.seq r.1,r.2)

/-! ### Reading back what was written -/

@[simp] theorem length_encodeLE (k n : Nat) : (encodeLE k n).length = k := by
  induction k generalizing n <;> simp [encodeLE, *]

theorem decodeLE_encodeLE (k n : Nat) : decodeLE (encodeLE k n) = n % 256^k := by
  induction k generalizing n with
  | zero => simp [encodeLE,decodeLE,Nat.mod_one]
  | succ k ih =>
    rw [encodeLE,decodeLE,ih,Nat.pow_succ',Nat.mod_mul]
    exact congrArg (· + _) (Nat.mod_mod n 256)

theorem read_append {b : List UInt8} {n : Nat} (h : b.length = n) (rest : List UInt8) :
    read n (b ++ rest) = .ok (b,rest) := by
  subst h
  simp [read]

theorem readSizeT_encodeLE {n : Nat} (hn : n < 2^64) (rest : List UInt8) :
    readSizeT (encodeLE 8 n ++ rest) = .ok (n,rest) := by
  rw [readSizeT,read_append (length_encodeLE 8 n)]
  simp only [Except.map,decodeLE_encodeLE]
  rw [Nat.mod_eq_of_lt (by simpa using hn)]

theorem readHeader_encode {h : ContiguousDataHeader} (hs : h.size < 2^64) (hb : h.bytesPerElement < 256)
    (rest : List UInt8) : readHeader (h.encode ++ rest) = .ok (h,rest) := by
  rw [readHeader,ContiguousDataHeader.encode,
    read_append (by simp : (encodeLE 8 h.size ++ encodeLE 1 h.bytesPerElement).length = 9)]
  simp only [Except.map,List.take_left' (length_encodeLE 8 h.size),
    List.drop_left' (length_encodeLE 8 h.size),decodeLE_encodeLE]
  rw [Nat.mod_eq_of_lt (by simpa using hs),Nat.mod_eq_of_lt (by simpa using hb)]

theorem length_flatten_of_sizes {sz : Nat} {xs : List (List UInt8)} (hxs : ∀ x ∈ xs, x.length = sz) :
    xs.flatten.length = xs.length * sz := by
  induction xs with
  | nil => simp
  | cons x xs ih =>
    simp only [List.flatten,List.length_append,List.length_cons,Nat.succ_mul,
      hxs x (List.mem_cons_self x xs),ih fun y hy => hxs y (List.mem_cons_of_mem x hy)]
    omega

theorem elementsOf_flatten {sz : Nat} {xs : List (List UInt8)} (hxs : ∀ x ∈ xs, x.length = sz)
    (rest : List UInt8) : elementsOf sz xs.length (xs.flatten ++ rest) = xs := by
  induction xs with
  | nil => rfl
  | cons x xs ih =>
    have hx := hxs x (List.mem_cons_self x xs)
    simp only [List.length_cons,elementsOf,List.flatten,List.append_assoc,
      List.take_left' hx,List.drop_left' hx,ih fun y hy => hxs y (List.mem_cons_of_mem x hy)]

theorem readContiguous_serializeBinaryBlob {sz : Nat} (hsz : sz < 256) {xs : List (List UInt8)}
    (hxs : ∀ x ∈ xs, x.length = sz) (hfit : xs.length * sz < 2^64) (hn : xs.length < 2^64)
    {elements : ContiguousDataHeader → Nat} (he : ∀ b, elements ⟨xs.length,b⟩ = xs.length)
    (rest : List UInt8) :
    readContiguous sz elements ((serializeBinaryBlob sz xs).1 ++ rest) = .ok (xs,rest) := by
  have hlen := length_flatten_of_sizes hxs
  set h : ContiguousDataHeader := ⟨xs.length,if 0 < xs.length then sz else 1⟩ with hh
  have hcount : h.count = xs.flatten.length := by
    rcases Nat.eq_zero_or_pos xs.length with h₀ | h₀
    · simp [hh,ContiguousDataHeader.count,h₀,hlen]
    · simp only [hh,ContiguousDataHeader.count,h₀,if_true,hlen,Nat.mod_eq_of_lt hfit]
  have hs : (serializeBinaryBlob sz xs).1 = h.encode ++ xs.flatten := by
    simp only [serializeBinaryBlob,Nat.mod_eq_of_lt hn,Nat.mod_eq_of_lt hsz]
    rw [← hh,hcount,List.take_length]
  have hb : h.bytesPerElement < 256 := by
    simp only [hh]
    split_ifs <;> omega
  rw [hs,List.append_assoc,readContiguous,readHeader_encode hn hb]
  simp only [bind,Except.bind,he,readInto,List.length_replicate,hcount,← hlen,lt_irrefl,if_false,
    read_append rfl,Except.map,pure,Except.pure]
  rw [List.drop_eq_nil_of_le (by simp),elementsOf_flatten hxs []]

/-! ### `std::vector<bool>` -/

theorem testBit_or_two_pow (b : UInt8) {k : Nat} (hk : k < 8) (j : Nat) :
    ((b.toNat ||| 2^k).toUInt8).toNat.testBit j = (b.toNat.testBit j || decide (k = j)) := by
  have hlt : b.toNat ||| 2^k < 256 := Nat.or_lt_two_pow b.val.isLt (Nat.pow_lt_pow_right (by decide) hk)
  rw [show ((b.toNat ||| 2^k).toUInt8).toNat = (b.toNat ||| 2^k) % 256 from rfl,
    Nat.mod_eq_of_lt hlt,Nat.testBit_or,Nat.testBit_two_pow]

theorem length_foldl_packBit (data : List Bool) (l : List Nat) (p : List UInt8) :
    (l.foldl (packBit data) p).length = p.length := by
  induction l generalizing p with
  | nil => rfl
  | cons i l ih => rw [List.foldl_cons,ih,packBit]; split_ifs <;> simp

theorem packBit_getElem? (data : List Bool) (p : List UInt8) (i q : Nat) :
    (packBit data p i)[q]? =
      p[q]?.map fun b => if data.getD i false ∧ i / 8 = q then (b.toNat ||| 2^(i % 8)).toUInt8 else b := by
  unfold packBit
  by_cases hd : data.getD i false
  · simp only [hd,if_true,List.getElem?_modify,true_and]
    rfl
  · simp only [hd,Bool.false_eq_true,false_and,if_false,Option.map_id']

theorem packBits_loop (data : List Bool) {n : Nat} (hn : data.length ≤ 8 * n) (m : Nat) :
    ∀ i < data.length, ∃ b, ((List.range m).foldl (packBit data) (List.replicate n 0))[i / 8]? = some b ∧
      b.toNat.testBit (i % 8) = (decide (i < m) && data.getD i false) := by
  induction m with
  | zero =>
    intro i hi
    refine ⟨0,by simp [List.getElem?_replicate]; omega,?_⟩
    simp [Nat.zero_testBit]
  | succ m ih =>
    intro i hi
    obtain ⟨b,hb,hbit⟩ := ih i hi
    rw [List.range_succ,List.foldl_append,List.foldl_cons,List.foldl_nil,packBit_getElem?,hb]
    refine ⟨_,rfl,?_⟩
    dsimp only
    by_cases him : i = m
    · subst him
      by_cases hd : data.getD i false
      · rw [if_pos ⟨hd,rfl⟩,testBit_or_two_pow b (Nat.mod_lt i (by decide)),hd]
        simp
      · have hd' : data.getD i false = false := by simpa using hd
        rw [if_neg fun h => hd h.1,hbit,hd']
        simp
    · have hlt : (decide (i < m+1) && data.getD i false) = (decide (i < m) && data.getD i false) := by
        congr 2
        exact propext ⟨fun h => by omega,fun h => by omega⟩
      rw [hlt]
      split_ifs with hc
      · rw [testBit_or_two_pow b (Nat.mod_lt m (by decide)),hbit]
        have : ¬m % 8 = i % 8 := fun h => him (by omega)
        simp [this]
      · exact hbit

theorem unpackBit_packBits {data : List Bool} (hL : data.length + 7 < 2^64) {i : Nat} (hi : i < data.length) :
    unpackBit (packBits data) i = .ok (data.getD i false) := by
  have hn : (data.length % 2^64 + 7) % 2^64 / 8 = (data.length + 7) / 8 := by
    rw [Nat.mod_eq_of_lt (by omega : data.length < 2^64),Nat.mod_eq_of_lt hL]
  obtain ⟨b,hb,hbit⟩ := packBits_loop data (n := (data.length + 7) / 8) (by omega) data.length i hi
  rw [unpackBit,packBits,hn,hb]
  simp [hbit,hi]

theorem mapM_ok_map {α β ε : Type} {f : α → Except ε β} {g : α → β} {l : List α}
    (h : ∀ x ∈ l, f x = .ok (g x)) : l.mapM f = .ok (l.map g) := by
  induction l with
  | nil => rfl
  | cons x l ih =>
    simp only [List.mapM_cons,h x (List.mem_cons_self x l),ih fun y hy => h y (List.mem_cons_of_mem x hy)]
    rfl

theorem deserializeBits_serializeBits {data : List Bool} (hL : data.length + 7 < 2^64) (rest : List UInt8) :
    deserializeBits ((serializeBits data).1 ++ rest) = .ok (data,rest) := by
  have hn : data.length % 2^64 = data.length := Nat.mod_eq_of_lt (by omega)
  have hp : (packBits data).length = (data.length + 7) % 2^64 / 8 := by
    rw [packBits,length_foldl_packBit,List.length_replicate,hn]
  have hmap : (List.range data.length).mapM (unpackBit (packBits data)) = .ok data := by
    rw [mapM_ok_map fun i hi => unpackBit_packBits hL (List.mem_range.mp hi)]
    refine congrArg _ (List.ext_getElem (by simp) fun n _ h => ?_)
    simp [List.getElem?_eq_getElem h]
  rw [serializeBits,hn,List.append_assoc,deserializeBits,readSizeT_encodeLE (by omega)]
  simp only [bind,Except.bind,read_append hp,hmap]
  rfl

/-! ### The whole format -/

theorem readMany_flatten {β : Type} {f : List UInt8 → Except CodecError (β × List UInt8)}
    {enc : β → List UInt8} {vs : List β} (hf : ∀ v ∈ vs, ∀ rest, f (enc v ++ rest) = .ok (v,rest))
    (rest : List UInt8) : readMany f vs.length ((vs.map enc).flatten ++ rest) = .ok (vs,rest) := by
  induction vs with
  | nil => rfl
  | cons v vs ih =>
    simp only [List.length_cons,readMany,List.map_cons,List.flatten,List.append_assoc,
      hf v (List.mem_cons_self v vs),bind,Except.bind,ih fun w hw => hf w (List.mem_cons_of_mem v hw)]
    rfl

/-- Decoding undoes encoding for every value of a type whose elements are smaller than 256
bytes, and reads exactly the bytes the encoding wrote, so that values sent back to back decode
one after the other. -/
theorem deserialize_serialize (t : CodecType) (ht : t.smallElements = true) (v : Value)
    (hv : v.isOf t = true) (rest : List UInt8) : deserialize t ((serialize t v).1 ++ rest) = .ok (v,rest) := by
  induction t generalizing v rest with
  | scalar sz =>
    cases v <;> simp only [Value.isOf,decide_eq_true_eq,Bool.false_eq_true] at hv
    simp only [serialize,deserialize,read_append hv]
    rfl
  | vector sz =>
    cases v <;> simp only [Value.isOf,Bool.and_eq_true,decide_eq_true_eq,List.all_eq_true,
      Bool.false_eq_true] at hv
    obtain ⟨⟨hfit,hn⟩,hxs⟩ := hv
    simp only [CodecType.smallElements,decide_eq_true_eq] at ht
    simp only [serialize,deserialize,deserializeBinaryBlob]
    rw [@readContiguous_serializeBinaryBlob sz ht _ hxs hfit hn (fun h => h.size) (fun _ => rfl) rest]
    rfl
  | array sz n =>
    cases v <;> simp only [Value.isOf,Bool.and_eq_true,decide_eq_true_eq,List.all_eq_true,
      Bool.false_eq_true] at hv
    obtain ⟨⟨⟨rfl,hfit⟩,hn⟩,hxs⟩ := hv
    simp only [CodecType.smallElements,decide_eq_true_eq] at ht
    simp only [serialize,deserialize,deserializeArray]
    rw [@readContiguous_serializeBinaryBlob sz ht _ hxs hfit hn (fun _ => _) (fun _ => rfl) rest]
    rfl
  | vectorBool =>
    cases v <;> simp only [Value.isOf,decide_eq_true_eq,Bool.false_eq_true] at hv
    simp only [serialize,deserialize,deserializeBits_serializeBits hv]
    rfl
  | vectorOf t ih =>
    cases v <;> simp only [Value.isOf,Bool.and_eq_true,decide_eq_true_eq,List.all_eq_true,
      Bool.false_eq_true] at hv
    rename_i vs
    obtain ⟨hn,hvs⟩ := hv
    simp only [serialize,serializeVectorOfVectors,deserialize,deserializeVectorOfVectors,
      Nat.mod_eq_of_lt hn,List.append_assoc,readSizeT_encodeLE hn,bind,Except.bind,
      readMany_flatten (fun w hw => ih ht w (hvs w hw))]
    rfl

/-- A `std::vector<std::string>` of `"AB"` and `""`, followed by another byte. -/
theorem stringVector_round_trip :
    CodecType.smallElements (.vectorOf .string) = true ∧
      Value.isOf (.vectorOf .string) (.seq [.elems [[65],[66]],.elems []]) = true ∧
      deserialize (.vectorOf .string)
          ((serialize (.vectorOf .string) (.seq [.elems [[65],[66]],.elems []])).1 ++ [7]) =
        .ok (.seq [.elems [[65],[66]],.elems []],[7]) :=
  ⟨by decide,by decide,deserialize_serialize _ (by decide) _ (by decide) [7]⟩

set_option maxRecDepth 4000 in
/-- A `std::vector` of one element of 256 bytes, such as a `std::array<float, 64>`: the header
records `bytes_per_element` as 0, no byte of the element is sent, and it reads back as zeros. -/
theorem wideElement_reads_back_zeroed :
    Value.isOf (.vector 256) (.elems [List.replicate 256 7]) = true ∧
      serialize (.vector 256) (.elems [List.replicate 256 7]) = (ContiguousDataHeader.encode ⟨1,0⟩,9) ∧
      deserialize (.vector 256) (serialize (.vector 256) (.elems [List.replicate 256 7])).1 =
        .ok (.elems [List.replicate 256 0],[]) :=
  ⟨by decide,rfl,rfl⟩

/-! ### Reads against the buffers -/

theorem read_error {n : Nat} {s : List UInt8} {e : CodecError} (h : read n s = .error e) :
    e = .endOfStream := by
  unfold read at h
  split_ifs at h
  cases h
  rfl

theorem read_ok_length {n : Nat} {s b s' : List UInt8} (h : read n s = .ok (b,s')) : b.length = n := by
  unfold read at h
  split_ifs at h with hle
  cases h
  simpa using hle

theorem map_read_error {γ : Type} {g : List UInt8 × List UInt8 → γ} {n : Nat} {s : List UInt8}
    {e : CodecError} (h : (read n s).map g = .error e) : e = .endOfStream := by
  cases hr : read n s with
  | error e' =>
    rw [hr] at h
    cases h
    exact read_error hr
  | ok r =>
    rw [hr] at h
    cases h

theorem readContiguous_overrun {sz : Nat} {elements : ContiguousDataHeader → Nat} {s : List UInt8}
    {count cap : Nat} (h : readContiguous sz elements s = .error (.overrun count cap)) :
    ∃ hd s', readHeader s = .ok (hd,s') ∧ count = hd.count ∧ cap = elements hd * sz ∧ cap < count := by
  unfold readContiguous at h
  rcases hr : readHeader s with e | ⟨hd,s'⟩
  · rw [hr] at h
    cases h
    cases map_read_error hr
  · simp only [hr,bind,Except.bind,readInto,List.length_replicate] at h
    split_ifs at h with hlt
    · cases h
      exact ⟨hd,s',rfl,rfl,rfl,hlt⟩
    · rcases hread : read hd.count s' with e | r
      · simp only [hread,Except.map] at h
        cases h
        cases read_error hread
      · simp only [hread,Except.map] at h
        cases h

/-- `deserialize_binary_blob` overruns its buffer only for a header whose
`bytes_per_element` exceeds `sizeof(T)`. -/
theorem deserializeBinaryBlob_overrun {sz : Nat} {s : List UInt8} {count cap : Nat}
    (h : deserializeBinaryBlob sz s = .error (.overrun count cap)) :
    ∃ hd s', readHeader s = .ok (hd,s') ∧ sz < hd.bytesPerElement := by
  obtain ⟨hd,s',hr,rfl,rfl,hlt⟩ := readContiguous_overrun h
  refine ⟨hd,s',hr,Nat.lt_of_mul_lt_mul_left (a := hd.size) ?_⟩
  exact lt_of_lt_of_le hlt (Nat.mod_le _ _)

/-- The header `(1, 255)` in front of a `std::vector<uint8_t>`. -/
theorem byteVector_overrun_header :
    deserializeBinaryBlob 1 (ContiguousDataHeader.encode ⟨1,255⟩) = .error (.overrun 255 1) ∧
      ∃ hd s', readHeader (ContiguousDataHeader.encode ⟨1,255⟩) = .ok (hd,s') ∧ 1 < hd.bytesPerElement :=
  ⟨rfl,deserializeBinaryBlob_overrun (s := ContiguousDataHeader.encode ⟨1,255⟩) rfl⟩

/-- `deserialize_array` overruns its `N` elements only for a header with more than `N`
elements or with `bytes_per_element` above `sizeof(T)`. -/
theorem deserializeArray_overrun {sz n : Nat} {s : List UInt8} {count cap : Nat}
    (h : deserializeArray sz n s = .error (.overrun count cap)) :
    ∃ hd s', readHeader s = .ok (hd,s') ∧ (n < hd.size ∨ sz < hd.bytesPerElement) := by
  obtain ⟨hd,s',hr,rfl,rfl,hlt⟩ := readContiguous_overrun h
  refine ⟨hd,s',hr,?_⟩
  by_contra hc
  push_neg at hc
  exact absurd (lt_of_lt_of_le hlt (Nat.mod_le _ _)) (not_lt.mpr (Nat.mul_le_mul hc.1 hc.2))

/-- The header `(2, 1)` in front of a `std::array<uint8_t, 1>`. -/
theorem byteArray_overrun_header :
    deserializeArray 1 1 (ContiguousDataHeader.encode ⟨2,1⟩) = .error (.overrun 2 1) ∧
      ∃ hd s', readHeader (ContiguousDataHeader.encode ⟨2,1⟩) = .ok (hd,s') ∧
        (1 < hd.size ∨ 1 < hd.bytesPerElement) :=
  ⟨rfl,deserializeArray_overrun (s := ContiguousDataHeader.encode ⟨2,1⟩) rfl⟩

theorem deserializeBits_outOfRange {s : List UInt8} {i len : Nat}
    (h : deserializeBits s = .error (.outOfRange i len)) :
    ∃ nb s', readSizeT s = .ok (nb,s') ∧ 2^64 ≤ nb + 7 := by
  unfold deserializeBits at h
  rcases hr : readSizeT s with e | ⟨nb,s'⟩
  · rw [hr] at h
    cases h
    cases map_read_error hr
  refine ⟨nb,s',rfl,?_⟩
  simp only [hr,bind,Except.bind] at h
  rcases hp : read ((nb + 7) % 2^64 / 8) s' with e | ⟨p,s''⟩
  · simp only [hp] at h
    cases h
    cases read_error hp
  by_contra hlt
  have hplen : p.length = (nb + 7) / 8 := by rw [read_ok_length hp,Nat.mod_eq_of_lt (by omega)]
  simp only [hp] at h
  cases hm : (List.range nb).mapM (unpackBit p) with
  | ok bs =>
    simp only [hm,pure,Except.pure] at h
    cases h
  | error e =>
    obtain ⟨j,hj,hfj⟩ := mapM_error hm
    have hin : j / 8 < p.length := by
      rw [hplen]
      have := List.mem_range.mp hj
      omega
    simp [unpackBit,List.getElem?_eq_getElem hin] at hfj

set_option maxRecDepth 4000 in
/-- A header announcing one element of 255 bytes in front of a `std::vector<uint8_t>`: the
buffer is resized to one byte and the read writes 255 bytes into it. -/
theorem byteVector_header_overruns :
    deserialize (.vector 1) (ContiguousDataHeader.encode ⟨1,255⟩ ++ List.replicate 255 0) =
      .error (.overrun 255 1) :=
  rfl

end Codec
end HoloscanLowering
