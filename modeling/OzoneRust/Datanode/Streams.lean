import OzoneRust.Datanode.Service

/-!
# Streams that break off

A chunk goes over the wire as a stream of messages, the last of which is marked. Both receivers
stop at the mark, but neither asks whether it came: a stream that ends before it looks like a
shorter chunk.

On the way to a datanode the digests of the chunk, if there are any, are checked over what was
received, and the message with the header must have come. So a stream that ends early is rejected
exactly if it is empty, or the digests do not fit the bytes that came
(`OzoneRust.Service.acceptWrite_take`). On the way back nothing is checked by the client: every
beginning of the stream is accepted (`OzoneRust.Service.collectStream_ok`).
`OzoneRust.chunk_streams` says both, and that streams that do not break off carry the chunk.
-/

namespace OzoneRust

namespace Service

/-! ### The client's side -/

/-- The loop of `DnClient::read_chunk` over the stream of a response, with the bytes so far. -/
def collectStream (buf : Bytes) : List (Except Status (Bytes × Bool)) → Except Status Bytes
  | [] => .ok buf
  | .error s :: _ => .error s
  | .ok (f, last) :: rest => if last then .ok (buf ++ f) else collectStream (buf ++ f) rest

/-- **The client accepts whatever comes**, if no message is an error. -/
theorem collectStream_ok : ∀ (frames : List (Bytes × Bool)) (buf : Bytes),
    collectStream buf (frames.map .ok) = .ok (collect buf frames)
  | [], _ => rfl
  | (f, last) :: rest, buf => by
    rw [List.map_cons, collectStream, collect]
    cases last
    · exact collectStream_ok rest (buf ++ f)
    · rfl

/-! ### Frames and their marks -/

theorem flagLast_cons {f : Bytes} {rest : List Bytes} (h : rest ≠ []) :
    flagLast (f :: rest) = (f, false) :: flagLast rest := by
  obtain ⟨g, rest, rfl⟩ := List.exists_cons_of_ne_nil h
  rfl

theorem length_flagLast : ∀ frames : List Bytes, (flagLast frames).length = frames.length
  | [] => rfl
  | [_] => rfl
  | f :: g :: rest => by
    rw [flagLast_cons (List.cons_ne_nil g rest), List.length_cons, length_flagLast (g :: rest)]
    rfl

/-- **The last frame is marked**, and no other. -/
theorem getElem?_flagLast : ∀ (frames : List Bytes) {i : ℕ} {f : Bytes} {last : Bool},
    (flagLast frames)[i]? = some (f, last) → (last = true ↔ i + 1 = frames.length)
  | [], _, _, _, h => by cases h
  | [g], i, f, last, h => by
    cases i with
    | zero =>
      cases h
      simp
    | succ i => cases h
  | g :: g' :: rest, i, f, last, h => by
    rw [flagLast_cons (List.cons_ne_nil g' rest)] at h
    cases i with
    | zero =>
      cases h
      simp
    | succ i =>
      rw [getElem?_flagLast (g' :: rest) h]
      simp

theorem take_flagLast : ∀ {frames : List Bytes} {m : ℕ}, m < frames.length →
    (flagLast frames).take m = (frames.take m).map (·, false)
  | _, 0, _ => rfl
  | f :: rest, m + 1, h => by
    have hrest : m < rest.length := Nat.lt_of_succ_lt_succ h
    rw [flagLast_cons (List.ne_nil_of_length_pos (by omega)), List.take_succ_cons,
      take_flagLast hrest]
    rfl

/-- Frames without a mark are all collected. -/
theorem collect_unmarked : ∀ (frames : List Bytes) (buf : Bytes),
    collect buf (frames.map (·, false)) = buf ++ frames.flatten
  | [], buf => (List.append_nil buf).symm
  | f :: rest, buf => by
    rw [List.map_cons, collect, if_neg (by simp), collect_unmarked rest, List.flatten_cons,
      List.append_assoc]

theorem lt_length_frame {n m : ℕ} (hn : 0 < n) {data : Bytes} (hm : 0 < m) :
    m < (frame n data).length ↔ m * n < data.length := by
  unfold frame
  split
  · subst data
    simp
    omega
  · rw [Blocks.chunks, List.length_map, List.length_range, Nat.lt_div_iff_mul_lt hn]
    omega

theorem flatten_take_frame (n m : ℕ) (data : Bytes) (h : m < (frame n data).length) :
    ((frame n data).take m).flatten = data.take (m * n) := by
  unfold frame at h ⊢
  split at h
  · subst data
    obtain rfl : m = 0 := by simpa using h
    simp
  · rw [Blocks.chunks, List.length_map, List.length_range] at h
    rw [if_neg (by assumption), Blocks.chunks, ← List.map_take, List.take_range,
      Nat.min_eq_left h.le, ← List.flatMap_def, Blocks.flatMap_range_take_drop]

/-! ### The datanode's side -/

/-- What messages without a mark add up to. -/
theorem receive_unmarked (header : WriteChunkHeader) : ∀ (frames : List Bytes) (buf : Bytes),
    receive (some header) buf (whole (frames.map fun f => ⟨none, f, false⟩)) =
      .ok (some header, buf ++ frames.flatten)
  | [], buf => by simp [whole, receive]
  | f :: rest, buf => by
    have hrest := receive_unmarked header rest (buf ++ f)
    rw [whole] at hrest
    rw [whole, List.map_cons, List.map_cons, receive, Option.some_or, if_neg (by simp), hrest,
      List.flatten_cons, List.append_assoc]

theorem length_writeMessages (block : BlockId) (chunk : ChunkInfo) (data : Bytes) :
    (writeMessages block chunk data).length = (frame writeFrameBytes data).length := by
  rw [← length_flagLast, writeMessages]
  split
  · next h => rw [h]; rfl
  · next h => rw [h, List.length_cons, List.length_cons, List.length_map]

/-- **A stream of a client that ends early**: what came of the bytes is taken for the chunk. -/
theorem receive_take {block : BlockId} {chunk : ChunkInfo} {data : Bytes} {m : ℕ} (hm : 0 < m)
    (h : m * writeFrameBytes < data.length) :
    receive none [] (whole ((writeMessages block chunk data).take m)) =
      .ok (some ⟨some block.toWire, some chunk.toWire⟩, data.take (m * writeFrameBytes)) := by
  have hlt := (lt_length_frame (by decide) hm).mpr h
  have hflat := flatten_take_frame _ _ _ hlt
  obtain ⟨k, rfl⟩ := Nat.exists_eq_succ_of_ne_zero hm.ne'
  unfold writeMessages
  cases hframes : frame writeFrameBytes data with
  | nil =>
    rw [hframes] at hlt
    cases hlt
  | cons f rest =>
    rw [hframes] at hlt hflat
    have hrest : k < rest.length := Nat.lt_of_succ_lt_succ hlt
    rw [flagLast_cons (List.ne_nil_of_length_pos (by omega))]
    dsimp only
    rw [List.take_succ_cons, ← List.map_take, take_flagLast hrest, List.map_map, whole,
      List.map_cons, receive, Option.none_or, if_neg (by simp)]
    have hmore := receive_unmarked ⟨some block.toWire, some chunk.toWire⟩ (rest.take k) ([] ++ f)
    rw [List.nil_append, ← List.flatten_cons, ← List.take_succ_cons, hflat] at hmore
    exact hmore

/-- **A stream that ends early is rejected exactly if the digests notice.** -/
theorem acceptWrite_take {block : BlockId} {chunk : ChunkInfo} {data : Bytes} {m : ℕ} (hm : 0 < m)
    (h : m * writeFrameBytes < data.length) :
    acceptWrite (whole ((writeMessages block chunk data).take m)) =
      (verified (data.take (m * writeFrameBytes)) chunk.checksumData).map fun _ =>
        (block, chunk, data.take (m * writeFrameBytes)) := by
  simp only [acceptWrite, receive_take hm h, acceptBlock, acceptChunk, required]
  dsimp only [bind, Except.bind]
  rw [BlockId.ofWire_toWire, ChunkInfo.ofWire_toWire]
  dsimp only [converted]
  cases verified (data.take (m * writeFrameBytes)) chunk.checksumData <;> rfl

theorem exists_error_iff {cd : Option ChecksumData} {data : Bytes} {α : Type} {a : α} :
    (∃ e, (verified data cd).map (fun _ => a) = .error e) ↔
      ∃ c e, cd = some c ∧ Checksum.verify data c = .error e := by
  cases cd with
  | none =>
    refine iff_of_false ?_ ?_
    · rintro ⟨e, he⟩
      cases he
    · rintro ⟨c, e, hc, -⟩
      cases hc
  | some c =>
    unfold verified
    dsimp only
    cases hverify : Checksum.verify data c with
    | ok u =>
      refine iff_of_false ?_ ?_
      · rintro ⟨e, he⟩
        cases he
      · rintro ⟨_, e, hc, he⟩
        cases hc
        cases hverify.symm.trans he
    | error e => exact iff_of_true ⟨_, rfl⟩ ⟨c, e, rfl, hverify⟩

/-- A beginning of a list that is not all of it. -/
theorem eq_take_of_prefix {α : Type} {part l : List α} (h : part <+: l) (hne : part ≠ l) :
    part = l.take part.length ∧ part.length < l.length :=
  ⟨List.prefix_iff_eq_take.mp h,
    lt_of_le_of_ne h.length_le fun hlen => hne (h.eq_of_length hlen)⟩

theorem last_writeMessages {block : BlockId} {chunk : ChunkInfo} {data : Bytes} {i : ℕ}
    {msg : WriteChunkMessage} (h : (writeMessages block chunk data)[i]? = some msg) :
    msg.last = true ↔ i + 1 = (writeMessages block chunk data).length := by
  rw [length_writeMessages]
  unfold writeMessages at h
  split at h
  · cases h
  · next payload last rest hflag =>
    refine getElem?_flagLast (frame writeFrameBytes data) (i := i) (f := msg.payload) ?_
    rw [hflag]
    cases i with
    | zero =>
      cases h
      rfl
    | succ i =>
      rw [List.getElem?_cons_succ, List.getElem?_map] at h
      obtain ⟨f, hf, rfl⟩ := Option.map_eq_some_iff.mp h
      exact hf

end Service

open Service in
/-- **Streams of chunks.** What the client of a datanode sends is put together to the chunk, and so
is what it reads; in both streams the last message is marked and no other. If the stream ends
before the mark, the datanode rejects every such beginning exactly if the chunk fits one message, or
comes with digests that fit none of its beginnings; the client accepts every beginning. -/
theorem chunk_streams (block : BlockId) (chunk : ChunkInfo) (data : Bytes) :
    ((∀ i msg, (writeMessages block chunk data)[i]? = some msg →
        (msg.last = true ↔ i + 1 = (writeMessages block chunk data).length)) ∧
      receive none [] (whole (writeMessages block chunk data)) =
        .ok (some ⟨some block.toWire, some chunk.toWire⟩, data) ∧
      (verified data chunk.checksumData = .ok () →
        acceptWrite (whole (writeMessages block chunk data)) = .ok (block, chunk, data))) ∧
    ((∀ i f last, (flagLast (frame readFrameBytes data))[i]? = some (f, last) →
        (last = true ↔ i + 1 = (flagLast (frame readFrameBytes data)).length)) ∧
      collectStream [] ((flagLast (frame readFrameBytes data)).map .ok) = .ok data) ∧
    ((∀ part, part <+: writeMessages block chunk data → part ≠ writeMessages block chunk data →
        ∃ e, acceptWrite (whole part) = .error e) ↔
      data.length ≤ writeFrameBytes ∨ ∃ cd, chunk.checksumData = some cd ∧
        ∀ m, 0 < m → m * writeFrameBytes < data.length →
          ∃ e, Checksum.verify (data.take (m * writeFrameBytes)) cd = .error e) ∧
    ∀ part, part <+: flagLast (frame readFrameBytes data) →
      part ≠ flagLast (frame readFrameBytes data) →
      collectStream [] (part.map .ok) = .ok (data.take (part.length * readFrameBytes)) := by
  refine ⟨⟨fun _ _ => last_writeMessages, receive_writeMessages block chunk data,
    acceptWrite_writeMessages⟩, ⟨fun i f last h => ?_, ?_⟩, ?_, fun part hpart hne => ?_⟩
  · rw [length_flagLast]
    exact getElem?_flagLast _ h
  · rw [collectStream_ok, collect_flagLast, flatten_frame (by decide)]
    rfl
  · constructor
    · intro h
      by_cases hone : data.length ≤ writeFrameBytes
      · exact .inl hone
      -- each beginning with a whole number of frames is rejected for its digests
      have hnotice : ∀ m, 0 < m → m * writeFrameBytes < data.length → ∃ cd e,
          chunk.checksumData = some cd ∧
            Checksum.verify (data.take (m * writeFrameBytes)) cd = .error e := by
        intro m hm hlt
        have hpart := h _ (List.take_prefix m _) fun heq => by
          have hlen := congrArg List.length heq
          have hmore := (lt_length_frame (by decide) hm).mpr hlt
          rw [List.length_take, length_writeMessages] at hlen
          omega
        rw [acceptWrite_take hm hlt] at hpart
        exact exists_error_iff.mp hpart
      obtain ⟨cd, -, hcd, -⟩ := hnotice 1 Nat.one_pos (by omega)
      refine .inr ⟨cd, hcd, fun m hm hlt => ?_⟩
      obtain ⟨cd', e, hcd', he⟩ := hnotice m hm hlt
      cases hcd.symm.trans hcd'
      exact ⟨e, he⟩
    · intro h part hpart hne
      obtain ⟨htake, hlt⟩ := eq_take_of_prefix hpart hne
      rw [length_writeMessages] at hlt
      rcases Nat.eq_zero_or_pos part.length with hzero | hpos
      · rw [List.length_eq_zero_iff.mp hzero]
        exact ⟨_, rfl⟩
      · have hlen := (lt_length_frame (by decide) hpos).mp hlt
        rw [htake, acceptWrite_take hpos hlen]
        refine exists_error_iff.mpr ?_
        rcases h with hone | ⟨cd, hcd, hnotice⟩
        · have hle := Nat.le_mul_of_pos_left writeFrameBytes hpos
          omega
        · obtain ⟨e, he⟩ := hnotice _ hpos hlen
          exact ⟨cd, e, hcd, he⟩
  · obtain ⟨htake, hlt⟩ := eq_take_of_prefix hpart hne
    rw [length_flagLast] at hlt
    rw [collectStream_ok]
    nth_rewrite 1 [htake]
    rw [take_flagLast hlt, collect_unmarked, flatten_take_frame _ _ _ hlt]
    rfl

open Service in
/-- The client takes a stream without any message for an empty chunk, and the datanode the first of
two messages for a whole one. -/
theorem chunk_streams_cutShort :
    ([] <+: flagLast (frame readFrameBytes [7]) ∧ [] ≠ flagLast (frame readFrameBytes [7]) ∧
      collectStream [] (([] : List (Bytes × Bool)).map .ok) = .ok []) ∧
    acceptWrite (whole ((writeMessages ⟨1, 1, 1⟩ ⟨"0", 0, 262145, none⟩
        (List.replicate (writeFrameBytes + 1) 7)).take 1)) =
      .ok (⟨1, 1, 1⟩, ⟨"0", 0, 262145, none⟩, List.replicate writeFrameBytes 7) := by
  refine ⟨⟨List.nil_prefix, by decide, rfl⟩, ?_⟩
  rw [acceptWrite_take Nat.one_pos (by simp), List.take_replicate, Nat.one_mul,
    Nat.min_eq_left (Nat.le_succ _)]
  rfl

end OzoneRust
