import Tonepoet.Library.ByteFile

/-!
# Chunked files

A chunk is a four-byte identifier, an eight-byte big-endian size and that many bytes, followed by a zero byte
when the size is odd. A scan reads one header after the other, and what it computes over a stretch of chunks
follows from what it does at each.
-/

namespace ChunkFile

open ByteFile

structure Chunk where
  id : List UInt8
  data : List UInt8
  idLength : id.length = 4
  deriving DecidableEq

/-- The zero byte after an odd number of bytes. -/
def padding (size : ℕ) : List UInt8 := if size % 2 = 1 then [0] else []

/-- A chunk in the file. -/
def Chunk.bytes (c : Chunk) : List UInt8 := c.id ++ (beBytes 8 c.data.length ++ (c.data ++ padding c.data.length))

@[simp] theorem length_padding (size : ℕ) : (padding size).length = size % 2 := by
  rw [padding]
  split_ifs with h
  · rw [h]
    rfl
  · rw [List.length_nil]
    omega

theorem Chunk.length_bytes (c : Chunk) : c.bytes.length = 12 + c.data.length + c.data.length % 2 := by
  rw [Chunk.bytes, List.length_append, List.length_append, List.length_append, c.idLength, length_beBytes, length_padding]
  omega

theorem Chunk.twelve_le (c : Chunk) : 12 ≤ c.bytes.length := by
  have h := c.length_bytes
  omega

section
variable {file : List UInt8} {pos : ℕ} {c : Chunk}

theorem holds_id (h : Holds file pos c.bytes) : Holds file pos c.id := h.left

theorem holds_size (h : Holds file pos c.bytes) : Holds file (pos + 4) (beBytes 8 c.data.length) := by
  have hright := Holds.right h
  rw [c.idLength] at hright
  exact hright.left

theorem holds_data (h : Holds file pos c.bytes) : Holds file (pos + 12) c.data := by
  have hright := (Holds.right h).right
  rw [c.idLength, length_beBytes] at hright
  exact hright.left

theorem holds_padding (h : Holds file pos c.bytes) : Holds file (pos + 12 + c.data.length) (padding c.data.length) := by
  have hright := (Holds.right h).right.right
  rwa [c.idLength, length_beBytes] at hright

end

/-! ## Scanning -/

/-- A chunk header read at an offset. The next chunk lies behind it. -/
structure Header (pos : ℕ) where
  id : List UInt8
  size : ℕ
  payloadEnd : ℕ
  next : ℕ
  lt : pos < next

/-- What a visit to a chunk decides. -/
inductive Step (σ : Type) where
  | next (s : σ)
  | stop (s : σ)

/-- Visit the chunks from an offset on, as long as a header fits before the end; the result says where the scan ended. -/
def scan {ε σ : Type} (header : (pos : ℕ) → Except ε (Header pos)) (visit : (pos : ℕ) → Header pos → σ → Except ε (Step σ))
    (stop pos : ℕ) (s : σ) : Except ε (σ × ℕ) :=
  if _hmore : pos + 12 ≤ stop then
    match header pos with
    | .error e => .error e
    | .ok chunk =>
      match visit pos chunk s with
      | .error e => .error e
      | .ok (.stop s) => .ok (s, pos)
      | .ok (.next s) => scan header visit stop chunk.next s
  else .ok (s, pos)
termination_by stop - pos
decreasing_by
  have hlt := chunk.lt
  omega

/-- The header of a chunk that stands at the offset. -/
def Chunk.header (c : Chunk) (pos : ℕ) : Header pos where
  id := c.id
  size := c.data.length
  payloadEnd := pos + 12 + c.data.length
  next := pos + c.bytes.length
  lt := by
    have h := c.twelve_le
    omega

section
variable {ε σ : Type} {header : (pos : ℕ) → Except ε (Header pos)} {visit : (pos : ℕ) → Header pos → σ → Except ε (Step σ)}
  {stop pos : ℕ} {c : Chunk} {s s' : σ}

theorem scan_done (h : ¬ pos + 12 ≤ stop) : scan header visit stop pos s = .ok (s, pos) := by
  rw [scan, dif_neg h]

theorem scan_next (hstop : pos + c.bytes.length ≤ stop) (hheader : header pos = .ok (c.header pos))
    (hvisit : visit pos (c.header pos) s = .ok (.next s')) :
    scan header visit stop pos s = scan header visit stop (pos + c.bytes.length) s' := by
  have hmore : pos + 12 ≤ stop := (Nat.add_le_add_left c.twelve_le pos).trans hstop
  rw [scan, dif_pos hmore, hheader]
  dsimp only
  rw [hvisit]
  rfl

theorem scan_stop (hstop : pos + c.bytes.length ≤ stop) (hheader : header pos = .ok (c.header pos))
    (hvisit : visit pos (c.header pos) s = .ok (.stop s')) : scan header visit stop pos s = .ok (s', pos) := by
  have hmore : pos + 12 ≤ stop := (Nat.add_le_add_left c.twelve_le pos).trans hstop
  rw [scan, dif_pos hmore, hheader]
  dsimp only
  rw [hvisit]

/-- The bytes of a stretch of chunks. -/
def bytesOf (chunks : List Chunk) : List UInt8 := chunks.flatMap Chunk.bytes

@[simp] theorem bytesOf_nil : bytesOf [] = [] := rfl

@[simp] theorem bytesOf_cons (c : Chunk) (chunks : List Chunk) : bytesOf (c :: chunks) = c.bytes ++ bytesOf chunks := List.flatMap_cons

theorem bytesOf_append (chunks more : List Chunk) : bytesOf (chunks ++ more) = bytesOf chunks ++ bytesOf more := List.flatMap_append

/-- Chunks take an even number of bytes. -/
theorem bytesOf_even (chunks : List Chunk) : (bytesOf chunks).length % 2 = 0 := by
  induction chunks with
  | nil => rfl
  | cons c chunks ih =>
    have hc := c.length_bytes
    rw [bytesOf_cons, List.length_append]
    omega

/-- The state after a stretch of chunks, from what each of them does to it. -/
def visited (effect : ℕ → Chunk → σ → σ) : List Chunk → ℕ → σ → σ
  | [], _, s => s
  | c :: chunks, pos, s => visited effect chunks (pos + c.bytes.length) (effect pos c s)

theorem visited_id (chunks : List Chunk) : ∀ (pos : ℕ) (s : σ), visited (fun _ _ s => s) chunks pos s = s := by
  induction chunks with
  | nil => exact fun _ _ => rfl
  | cons c chunks ih => exact fun _ _ => ih _ _

variable {file : List UInt8} {chunks : List Chunk} {effect : ℕ → Chunk → σ → σ}

/-- A scan over a stretch of chunks. -/
theorem scan_chunks (hheader : ∀ {pos : ℕ} {c : Chunk}, Holds file pos c.bytes → header pos = .ok (c.header pos))
    (hvisit : ∀ c ∈ chunks, ∀ pos s, Holds file pos c.bytes → pos + c.bytes.length ≤ stop →
      visit pos (c.header pos) s = .ok (.next (effect pos c s))) :
    ∀ {pos : ℕ} {s : σ}, Holds file pos (bytesOf chunks) → pos + (bytesOf chunks).length ≤ stop →
      scan header visit stop pos s = scan header visit stop (pos + (bytesOf chunks).length) (visited effect chunks pos s) := by
  induction chunks with
  | nil => exact fun _ _ => rfl
  | cons c chunks ih =>
    intro pos s hholds hstop
    rw [bytesOf_cons] at hholds hstop ⊢
    rw [List.length_append, ← Nat.add_assoc] at hstop ⊢
    have hc : pos + c.bytes.length ≤ stop := (Nat.le_add_right _ _).trans hstop
    rw [scan_next hc (hheader hholds.left) (hvisit c List.mem_cons_self pos s hholds.left hc), visited,
      ih (fun d hd => hvisit d (List.mem_cons_of_mem _ hd)) hholds.right hstop]

/-- Chunks that no visit takes notice of. -/
theorem scan_ignored (hheader : ∀ {pos : ℕ} {c : Chunk}, Holds file pos c.bytes → header pos = .ok (c.header pos))
    (hvisit : ∀ c ∈ chunks, ∀ pos s, Holds file pos c.bytes → pos + c.bytes.length ≤ stop → visit pos (c.header pos) s = .ok (.next s))
    (hholds : Holds file pos (bytesOf chunks)) (hstop : pos + (bytesOf chunks).length ≤ stop) :
    scan header visit stop pos s = scan header visit stop (pos + (bytesOf chunks).length) s := by
  rw [scan_chunks hheader hvisit hholds hstop, visited_id]

end

end ChunkFile
