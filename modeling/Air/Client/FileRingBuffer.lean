import Air.Data.Ring
import Air.Common.Padded

/-! # The file ring buffer

`FileRingBuffer` of `applogic/src/util/file_ring_buffer.rs`: a header with `MAGIC` and the
`u64` counter `WRITTEN` of bytes ever written, then a data region of fixed length `len` used
as a ring. `write_data` keeps the last `len` bytes of an oversized write, copies them at
`WRITTEN % len` up to the end and the rest from the start, and adds their number to
`WRITTEN`; `clear` zeroes the counter and the data. `buf` reads the valid window through a
`RingBufferReader` with `chunk` and `advance`.

In ring terms (`Air.Data.Ring`) the data seen from the write position is a queue: a write
drops as many bytes from its front as it appends. So the window the reader walks is the
last `len` bytes written since the last clear, as long as `WRITTEN` does not wrap; with the
release profile's wrapping addition it wraps after `2 ^ 64` bytes and the window is lost.
A panic of the source (a division by zero, a slice out of range) is `none`. Bytes are
`UInt8`, lengths are `usize` on a 64-bit target.
-/

namespace Air

def headerLen : ℕ := 16

def magic : ℕ := 0x4149524C4F470002

def u64FromLeBytes (bytes : List UInt8) : ℕ := bytes.foldr (fun b acc => b.toNat + 2 ^ 8 * acc) 0

structure FileRingBuffer where
  written : ℕ
  data : List UInt8
  deriving DecidableEq, Repr

structure RingBufferReader where
  pos : ℕ
  remaining : ℕ
  deriving DecidableEq, Repr

inductive RingOp where
  | write (bytes : List UInt8)
  | clear
  deriving DecidableEq, Repr

namespace FileRingBuffer

def anon (len : ℕ) : FileRingBuffer := ⟨0, List.replicate len 0⟩

/-- `FileRingBuffer::open` on a file holding `file`: `set_len` cuts or zero-extends it to
`HEADER_LEN + len` bytes, and a header without `MAGIC` is discarded with the data. -/
def openFile (file : List UInt8) (len : ℕ) : FileRingBuffer :=
  let bytes := resize file (headerLen + len) 0
  if u64FromLeBytes (bytes.take 8) ≠ magic then ⟨0, List.replicate len 0⟩
  else ⟨u64FromLeBytes ((bytes.drop 8).take 8), bytes.drop headerLen⟩

def len (b : FileRingBuffer) : ℕ := b.data.length

def clear (b : FileRingBuffer) : FileRingBuffer := ⟨0, List.replicate b.len 0⟩

def readTail (b : FileRingBuffer) : ℕ := if b.len = 0 then 0 else b.written % b.len

def writeData (b : FileRingBuffer) (newData : List UInt8) : Option FileRingBuffer :=
  -- special case: the buffer is empty => avoid division by zero
  if b.data.isEmpty then some b else
  -- only the suffix of an oversized write that fits is written
  let newData := if b.len ≤ newData.length then newData.drop (newData.length - b.len) else newData
  let tail := b.readTail
  let leftLen := min newData.length (b.len - tail)
  let rightLen := newData.length - leftLen
  if leftLen ≤ newData.length ∧ tail + leftLen ≤ b.len ∧ rightLen ≤ b.len then
    some ⟨(b.written + newData.length) % 2 ^ 64,
      (b.data.copyInto tail (newData.take leftLen)).copyInto 0 (newData.drop leftLen)⟩
  else none

def buf (b : FileRingBuffer) : Option RingBufferReader :=
  let pos := if b.written > b.len then (if b.len = 0 then none else some (b.written % b.len))
    else some 0
  pos.map fun pos => ⟨pos, min b.written b.len⟩

def chunk (b : FileRingBuffer) (r : RingBufferReader) : Option (List UInt8) :=
  if r.remaining = 0 then some [] else
  let stop := min (r.pos + r.remaining) b.len
  if r.pos ≤ stop then some ((b.data.drop r.pos).take (stop - r.pos)) else none

def advance (b : FileRingBuffer) (r : RingBufferReader) (cnt : ℕ) : Option RingBufferReader :=
  if b.len = 0 then none else some ⟨(r.pos + cnt) % b.len, r.remaining - cnt⟩

def readWith (b : FileRingBuffer) : RingBufferReader → List ℕ → Option (List UInt8 × RingBufferReader)
  | r, [] => some ([], r)
  | r, cnt :: cnts => do
    let c ← b.chunk r
    let r' ← b.advance r cnt
    let (rest, r'') ← b.readWith r' cnts
    pure (c.take cnt ++ rest, r'')

/-- A reader of the `Buf`: it calls `advance(cnt)` with `cnt <= chunk().len()` while
`remaining()` is not zero, and stops when it is. -/
def Obeys (b : FileRingBuffer) : RingBufferReader → List ℕ → Prop
  | r, [] => r.remaining = 0
  | r, cnt :: cnts => r.remaining ≠ 0 ∧ ∀ c, b.chunk r = some c → cnt ≤ c.length ∧
      ∀ r', b.advance r cnt = some r' → Obeys b r' cnts

def apply (b : FileRingBuffer) : RingOp → Option FileRingBuffer
  | .write bytes => b.writeData bytes
  | .clear => some b.clear

def runOps (b : FileRingBuffer) : List RingOp → Option FileRingBuffer
  | [] => some b
  | op :: ops => (b.apply op).bind fun b => runOps b ops

end FileRingBuffer

def sinceClear (s : List UInt8) : List RingOp → List UInt8
  | [] => s
  | .write bytes :: ops => sinceClear (s ++ bytes) ops
  | .clear :: ops => sinceClear [] ops

namespace FileRingBuffer

/-- The buffer holds `s`, the bytes written since the last clear: its window, the data seen
from the write position without the bytes never written, is the last `len` bytes of `s`. -/
structure Mirrors (b : FileRingBuffer) (s : List UInt8) : Prop where
  written_le : b.written ≤ s.length
  min_written : min b.written b.len = min s.length b.len
  empty : b.len = 0 → b.written = 0
  window : (b.data.rotate (b.written % b.len)).drop (b.len - min b.written b.len) = s.rtake b.len

theorem anon_mirrors (len : ℕ) : Mirrors (anon len) [] where
  written_le := le_rfl
  min_written := rfl
  empty _ := rfl
  window := by simp [anon, FileRingBuffer.len]

theorem u64FromLeBytes_replicate_zero (n : ℕ) : u64FromLeBytes (List.replicate n 0) = 0 := by
  induction n with
  | zero => rfl
  | succ n ih =>
    rw [u64FromLeBytes, List.replicate_succ, List.foldr_cons, ← u64FromLeBytes, ih]
    rfl

theorem openFile_nil (len : ℕ) : openFile [] len = anon len := by
  simp [openFile, anon, resize, u64FromLeBytes_replicate_zero, magic]

theorem len_clear (b : FileRingBuffer) : b.clear.len = b.len := by
  simp [FileRingBuffer.clear, len]

theorem Mirrors.clear {b : FileRingBuffer} {s : List UInt8} (_h : Mirrors b s) : Mirrors b.clear [] where
  written_le := le_rfl
  min_written := by simp [FileRingBuffer.clear]
  empty _ := rfl
  window := by simp [FileRingBuffer.clear, FileRingBuffer.len]

/-! ## Writing -/

theorem truncate_eq_rtake (b : FileRingBuffer) (newData : List UInt8) :
    (if b.len ≤ newData.length then newData.drop (newData.length - b.len) else newData) =
      newData.rtake b.len := by
  split
  · rfl
  · rw [List.rtake, Nat.sub_eq_zero_of_le (by omega), List.drop_zero]

/-- `write_data` on a non-empty buffer: the last `len` bytes `d` of the new data are added to
`WRITTEN`, and the ring seen from the new tail is the ring seen from the old one without its
first `d.length` bytes, then `d`. -/
theorem writeData_spec {b : FileRingBuffer} (hlen : 0 < b.len) (newData : List UInt8) :
    ∃ b', b.writeData newData = some b' ∧
      b'.written = (b.written + (newData.rtake b.len).length) % 2 ^ 64 ∧ b'.len = b.len ∧
      b'.data.rotate ((b.written + (newData.rtake b.len).length) % b.len) =
        (b.data.rotate (b.written % b.len)).drop (newData.rtake b.len).length ++
          newData.rtake b.len := by
  have hne : b.data.isEmpty = false := List.isEmpty_eq_false_iff.mpr (List.ne_nil_of_length_pos hlen)
  have htail : b.readTail = b.written % b.len := if_neg (Nat.pos_iff_ne_zero.mp hlen)
  have htail_lt : b.written % b.len < b.data.length := Nat.mod_lt _ hlen
  set d := newData.rtake b.len with hd_def
  have hd : d.length ≤ b.data.length := by
    rw [hd_def, List.length_rtake]
    exact Nat.min_le_right _ _
  have hguard : min d.length (b.len - b.written % b.len) ≤ d.length ∧
      b.written % b.len + min d.length (b.len - b.written % b.len) ≤ b.len ∧
      d.length - min d.length (b.len - b.written % b.len) ≤ b.len := by
    unfold len at *
    omega
  have hleft : b.written % b.len + (d.take (min d.length (b.len - b.written % b.len))).length ≤
      b.data.length := by
    rw [List.length_take]
    exact le_trans (Nat.add_le_add_left (Nat.min_le_left _ _) _) hguard.2.1
  refine ⟨⟨(b.written + d.length) % 2 ^ 64, (b.data.copyInto (b.written % b.len)
    (d.take (min d.length (b.len - b.written % b.len)))).copyInto 0
    (d.drop (min d.length (b.len - b.written % b.len)))⟩, ?_, rfl, ?_, ?_⟩
  · simp only [writeData, hne, truncate_eq_rtake, htail, ← hd_def, if_pos hguard]
    rfl
  · show (List.copyInto _ 0 _).length = b.data.length
    rw [List.length_copyInto, List.length_copyInto hleft]
    rw [List.length_copyInto hleft, List.length_drop]
    omega
  · have hmod : (b.written + d.length) % b.len = (b.written % b.len + d.length) % b.data.length := by
      exact (Nat.mod_add_mod _ _ _).symm
    rw [hmod]
    exact List.rotate_copyInto_copyInto b.data d htail_lt hd

theorem writeData_of_len_eq_zero {b : FileRingBuffer} (hlen : b.len = 0) (newData : List UInt8) :
    b.writeData newData = some b := by
  have hnil : b.data = [] := List.length_eq_zero_iff.mp hlen
  simp [writeData, hnil]

theorem Mirrors.writeData {b : FileRingBuffer} {s : List UInt8} (h : Mirrors b s)
    (bytes : List UInt8) (hfit : (s ++ bytes).length < 2 ^ 64) :
    ∃ b', b.writeData bytes = some b' ∧ b'.len = b.len ∧ Mirrors b' (s ++ bytes) := by
  rcases Nat.eq_zero_or_pos b.len with hlen | hlen
  · -- `WRITTEN` stays `0` and the window stays empty
    have hw : b.written = 0 := h.empty hlen
    refine ⟨b, writeData_of_len_eq_zero hlen bytes, rfl, ⟨?_, ?_, h.empty, ?_⟩⟩
    · rw [hw]
      exact Nat.zero_le _
    · rw [hw, hlen, Nat.min_zero, Nat.min_zero]
    · have hnil : b.data = [] := List.length_eq_zero_iff.mp hlen
      rw [hlen, List.rtake, Nat.sub_zero, List.drop_length, hnil, List.rotate_nil, List.drop_nil]
  · obtain ⟨b', hw, hwritten, hlen', hdata⟩ := writeData_spec hlen bytes
    set d := bytes.rtake b.len with hd_def
    have hdlen : d.length = min bytes.length b.len := List.length_rtake _ _
    have hle := h.written_le
    have hmin := h.min_written
    have hnowrap : b.written + d.length < 2 ^ 64 := by
      rw [List.length_append] at hfit
      omega
    rw [Nat.mod_eq_of_lt hnowrap] at hwritten
    refine ⟨b', hw, hlen', ⟨?_, ?_, ?_, ?_⟩⟩
    · rw [hwritten, List.length_append]
      omega
    · rw [hwritten, hlen', List.length_append]
      omega
    · rw [hlen']
      omega
    · -- the window grows by `d`, keeps its last `len` bytes, and `d` is the last `len` of `bytes`
      have hR : (b.data.rotate (b.written % b.len)).length = b.len := List.length_rotate _ _
      have hstart : b'.len - min b'.written b'.len = (b.data.rotate (b.written % b.len)).length -
          min (min b.written b.len + d.length) (b.data.rotate (b.written % b.len)).length := by
        rw [hlen', hwritten, hR]
        omega
      have hm : min b.written b.len ≤ (b.data.rotate (b.written % b.len)).length := by
        rw [hR]
        exact Nat.min_le_right _ _
      have hd : d.length ≤ (b.data.rotate (b.written % b.len)).length := by
        rw [hR, hdlen]
        exact Nat.min_le_right _ _
      rw [hstart, hwritten, hlen', hdata, List.drop_append_eq_rtake _ d hm hd, hR, h.window, hd_def,
        List.rtake_append_rtake]

/-! ## Reading -/

theorem chunk_eq {b : FileRingBuffer} {r : RingBufferReader} (hrem : r.remaining ≠ 0)
    (hpos : r.pos < b.len) :
    b.chunk r = some ((b.data.drop r.pos).take (min (r.pos + r.remaining) b.len - r.pos)) := by
  have hle : r.pos ≤ min (r.pos + r.remaining) b.len := by omega
  simp only [chunk, if_neg hrem, if_pos hle]

theorem advance_eq {b : FileRingBuffer} (hlen : 0 < b.len) (r : RingBufferReader) (cnt : ℕ) :
    b.advance r cnt = some ⟨(r.pos + cnt) % b.len, r.remaining - cnt⟩ := by
  simp only [advance, if_neg (Nat.pos_iff_ne_zero.mp hlen)]

/-- A reader inside the ring yields the next `remaining` bytes of the ring from its position.
The induction is on the reader's calls; one `chunk` and `advance(cnt)` reads `cnt` bytes in one
piece up to the end of the data and leaves the reader inside the ring. -/
theorem readWith_of_obeys {b : FileRingBuffer} (cnts : List ℕ) :
    ∀ r : RingBufferReader, r.remaining ≤ b.len → (r.remaining ≠ 0 → r.pos < b.len) →
      b.Obeys r cnts → ∃ r', b.readWith r cnts = some ((b.data.rotate r.pos).take r.remaining, r') := by
  induction cnts with
  | nil =>
    intro r _ _ hobeys
    refine ⟨r, ?_⟩
    rw [readWith, show r.remaining = 0 from hobeys, List.take_zero]
  | cons cnt cnts ih =>
    rintro r hrem hin ⟨hne, hobeys⟩
    have hpos := hin hne
    have hlen : 0 < b.len := by omega
    have hchunk := chunk_eq hne hpos
    obtain ⟨hcnt, hnext⟩ := hobeys _ hchunk
    have hdata : b.data.length = b.len := rfl
    have hcnt' : cnt ≤ min (r.pos + r.remaining) b.len - r.pos := by
      rw [List.length_take, List.length_drop] at hcnt
      omega
    have hadv := advance_eq hlen r cnt
    obtain ⟨r'', hrest⟩ := ih _ (le_trans (Nat.sub_le _ _) hrem) (fun _ => Nat.mod_lt _ hlen)
      (hnext _ hadv)
    refine ⟨r'', ?_⟩
    simp only [readWith, hchunk, hadv, hrest, Option.bind_eq_bind, Option.bind_some,
      List.take_take, Option.pure_def, Option.some.injEq, Prod.mk.injEq, and_true]
    rw [Nat.min_eq_left hcnt']
    exact (List.rotate_take_eq_append b.data hpos hrem (by omega) (by omega)).symm

theorem Mirrors.buf {b : FileRingBuffer} {s : List UInt8} (h : Mirrors b s) :
    ∃ r, b.buf = some r ∧ r.remaining ≤ b.len ∧ (r.remaining ≠ 0 → r.pos < b.len) ∧
      (b.data.rotate r.pos).take r.remaining = s.rtake b.len := by
  by_cases hwrap : b.written > b.len
  · -- the ring has wrapped: the whole data, from the write position
    have hlen : b.len ≠ 0 := fun h0 => by
      have := h.empty h0
      omega
    refine ⟨⟨b.written % b.len, b.len⟩, ?_, le_rfl, fun _ => Nat.mod_lt _ (Nat.pos_of_ne_zero hlen), ?_⟩
    · simp only [FileRingBuffer.buf, if_pos hwrap, if_neg hlen, Option.map_some,
        Nat.min_eq_right hwrap.le]
    · have hwindow := h.window
      rw [Nat.min_eq_right hwrap.le, Nat.sub_self, List.drop_zero] at hwindow
      rw [← hwindow]
      exact List.take_of_length_le (le_of_eq (List.length_rotate _ _))
  · -- not yet wrapped: the first `WRITTEN` bytes
    have hle : b.written ≤ b.len := Nat.le_of_not_gt hwrap
    refine ⟨⟨0, b.written⟩, ?_, hle, fun hne => lt_of_lt_of_le (Nat.pos_of_ne_zero hne) hle, ?_⟩
    · simp only [FileRingBuffer.buf, if_neg hwrap, Option.map_some, Nat.min_eq_left hle]
    · have hwindow := h.window
      have hfirst : (b.data.rotate (b.written % b.len)).drop (b.len - b.written) =
          b.data.take b.written := List.rotate_mod_drop_eq_take b.data hle
      rw [Nat.min_eq_left hle] at hwindow
      show (b.data.rotate 0).take b.written = _
      rw [List.rotate_zero, ← hwindow, hfirst]

/-! ## Runs -/

theorem Mirrors.runOps {b : FileRingBuffer} {s : List UInt8} (h : Mirrors b s) (ops : List RingOp)
    (hfit : ∀ i, (sinceClear s (ops.take i)).length < 2 ^ 64) :
    ∃ b', b.runOps ops = some b' ∧ b'.len = b.len ∧ Mirrors b' (sinceClear s ops) := by
  induction ops generalizing b s with
  | nil => exact ⟨b, rfl, rfl, h⟩
  | cons op ops ih =>
    cases op with
    | write bytes =>
      obtain ⟨b₁, hw, hlen₁, h₁⟩ := h.writeData bytes (hfit 1)
      obtain ⟨b', hrun, hlen', h'⟩ := ih h₁ (fun i => hfit (i + 1))
      exact ⟨b', by rw [FileRingBuffer.runOps, FileRingBuffer.apply, hw, Option.bind_some, hrun],
        hlen'.trans hlen₁, h'⟩
    | clear =>
      obtain ⟨b', hrun, hlen', h'⟩ := ih h.clear (fun i => hfit (i + 1))
      exact ⟨b', by rw [FileRingBuffer.runOps, FileRingBuffer.apply, Option.bind_some, hrun],
        hlen'.trans (len_clear b), h'⟩

end FileRingBuffer

open FileRingBuffer in
/-- On a fresh buffer, as long as fewer than `2 ^ 64` bytes have been written since the last
clear at every point, every reader of `buf` that keeps to the `Buf` contract reads, without a
panic, exactly the last `len` bytes written since the last clear. -/
theorem ringBuffer_reads_last_written (len : ℕ) (b₀ : FileRingBuffer)
    (hfresh : b₀ = anon len ∨ b₀ = openFile [] len) (ops : List RingOp)
    (hfit : ∀ i, (sinceClear [] (ops.take i)).length < 2 ^ 64) :
    ∃ b, b₀.runOps ops = some b ∧ ∃ r, b.buf = some r ∧ ∀ cnts, b.Obeys r cnts →
      ∃ r', b.readWith r cnts = some ((sinceClear [] ops).rtake len, r') := by
  have hb₀ : b₀ = anon len := by
    rcases hfresh with rfl | rfl
    · rfl
    · exact openFile_nil len
  subst hb₀
  obtain ⟨b, hrun, hlen, hmirrors⟩ := (anon_mirrors len).runOps ops hfit
  obtain ⟨r, hbuf, hrem, hin, hwindow⟩ := hmirrors.buf
  refine ⟨b, hrun, r, hbuf, fun cnts hobeys => ?_⟩
  obtain ⟨r', hread⟩ := readWith_of_obeys cnts r hrem hin hobeys
  have hlen' : b.len = len := by
    rw [hlen]
    exact List.length_replicate
  exact ⟨r', by rw [hread, hwindow, hlen']⟩

/-- The source's test of a wrapped read: a buffer of eight bytes after "01234" and "56789"
reads "23456789". -/
theorem ringBuffer_reads_wrapped :
    ∃ b, (FileRingBuffer.anon 8).runOps [.write [48, 49, 50, 51, 52], .write [53, 54, 55, 56, 57]] =
      some b ∧ ∃ r, b.buf = some r ∧ ∀ cnts, b.Obeys r cnts →
        ∃ r', b.readWith r cnts = some ([50, 51, 52, 53, 54, 55, 56, 57], r') :=
  ringBuffer_reads_last_written 8 _ (.inl rfl) _ fun i => by
    rcases i with _ | _ | i <;> simp [sinceClear]

namespace FileRingBuffer

/-! ## The counter wraps -/

theorem writeData_single (w : ℕ) (x y : UInt8) :
    (⟨w, [x]⟩ : FileRingBuffer).writeData [y] = some ⟨(w + 1) % 2 ^ 64, [y]⟩ := by
  simp [writeData, len, readTail, List.copyInto, Nat.mod_one]

theorem runOps_replicate_single {w : ℕ} (hw : w < 2 ^ 64) (y : UInt8) (n : ℕ) :
    (⟨w, [y]⟩ : FileRingBuffer).runOps (List.replicate n (.write [y])) =
      some ⟨(w + n) % 2 ^ 64, [y]⟩ := by
  induction n generalizing w with
  | zero => rw [List.replicate_zero, runOps, Nat.add_zero, Nat.mod_eq_of_lt hw]
  | succ n ih =>
    rw [List.replicate_succ, runOps, apply, writeData_single, Option.bind_some,
      ih (Nat.mod_lt _ (Nat.two_pow_pos 64)), Nat.mod_add_mod, Nat.add_assoc, Nat.add_comm 1 n]

end FileRingBuffer

theorem sinceClear_replicate (s : List UInt8) (y : UInt8) (n : ℕ) :
    sinceClear s (List.replicate n (.write [y])) = s ++ List.replicate n y := by
  induction n generalizing s with
  | zero => rw [List.replicate_zero, sinceClear, List.replicate_zero, List.append_nil]
  | succ n ih =>
    rw [List.replicate_succ, sinceClear, ih, List.append_assoc, List.singleton_append,
      ← List.replicate_succ]

open FileRingBuffer in
/-- `WRITTEN` wraps after `2 ^ 64` bytes: on a buffer of one byte, after `2 ^ 64` writes of the
byte `7` the reader must stop at once and yields nothing, where the last byte written is `7`. -/
theorem ringBuffer_forgets_after_wrap :
    ∃ b r, (anon 1).runOps (List.replicate (2 ^ 64) (.write [7])) = some b ∧ b.buf = some r ∧
      b.Obeys r [] ∧ b.readWith r [] = some ([], r) ∧
      (sinceClear [] (List.replicate (2 ^ 64) (.write [7]))).rtake 1 = [7] := by
  have hrun : (anon 1).runOps (List.replicate (2 ^ 64) (.write [7])) = some ⟨0, [7]⟩ := by
    rw [show 2 ^ 64 = 2 ^ 64 - 1 + 1 from rfl, List.replicate_succ]
    show (⟨0, [0]⟩ : FileRingBuffer).runOps _ = _
    rw [runOps, apply, writeData_single, Option.bind_some,
      runOps_replicate_single (Nat.mod_lt _ (Nat.two_pow_pos 64))]
    rfl
  refine ⟨⟨0, [7]⟩, ⟨0, 0⟩, hrun, rfl, rfl, rfl, ?_⟩
  rw [sinceClear_replicate, List.nil_append, List.rtake, List.length_replicate, List.drop_replicate]
  rfl

end Air
