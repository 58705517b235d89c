/-
  How the transport cuts a byte stream into chunks, and what the readers make of it.

  * `receiveFrames`: the receive loop of `handle_client` and of `recv_loop`, which appends a
    chunk and takes frames off the buffer while `extract_packet_frame` yields one.
  * `segmentation`: it comes to the same on every cutting of a stream.
  * `processed`: the frames of the three readers of a connection, two calls of
    `read_packet_frame` and the loop of `handle_client`, which starts with an empty buffer.
  * `processed_iff`: these are the frames sent if and only if a chunk ends where the first
    frame ends and one where the second does.
-/
import Pipebomb.Accept
import Pipebomb.Stub
import Pipebomb.Lib.Inlet

namespace Pipebomb

open ByteString

/-- The stream arrives in these chunks; an empty chunk is the end of a stream. -/
structure Cutting (stream : Bytes) (chunks : List Bytes) : Prop where
  ne_nil : ∀ c ∈ chunks, c ≠ []
  flatten : chunks.flatten = stream

instance (stream : Bytes) (chunks : List Bytes) : Decidable (Cutting stream chunks) :=
  decidable_of_iff ((∀ c ∈ chunks, c ≠ []) ∧ chunks.flatten = stream)
    ⟨fun h => ⟨h.1, h.2⟩, fun h => ⟨h.1, h.2⟩⟩

section
variable {b f r : Bytes} {e : ℕ}

/-- A buffer without a complete frame is kept. -/
theorem extractPacketFrame_none (h : extractPacketFrame b = (none, r, none)) : r = b := by
  unfold extractPacketFrame at h
  simp only at h
  split_ifs at h
  · exact (congrArg (fun x => x.2.1) h).symm
  · cases congrArg (fun x => x.2.2) h
  · exact (congrArg (fun x => x.2.1) h).symm
  · cases congrArg (fun x => x.1) h

/-- A broken framing empties the buffer. -/
theorem extractPacketFrame_bad {f? : Option Bytes} (h : extractPacketFrame b = (f?, r, some e)) :
    r = [] := by
  unfold extractPacketFrame at h
  simp only at h
  split_ifs at h
  · cases congrArg (fun x => x.2.2) h
  · exact (congrArg (fun x => x.2.1) h).symm
  · cases congrArg (fun x => x.2.2) h
  · cases congrArg (fun x => x.2.2) h

end

theorem packetFraming_cut (b : Bytes) : packetFraming.cut b = match extractPacketFrame b with
    | (_, _, some e) => .bad e
    | (some f, r, none) => .frame f r
    | (none, _, none) => .more := rfl

/-! ## The receive loop -/

/-- The frames taken off, the buffer, and the framing error that ended the loop. -/
abbrev Received := Framing.Loop UInt8 ℕ (List Bytes) Empty

/-- Call `extract_packet_frame` until it yields no frame. -/
def takeFrames (frames : List Bytes) (buffer : Bytes) : Received :=
  packetFraming.drain Framing.collect frames buffer

/-- The calls, one by one. -/
theorem takeFrames_eq (frames : List Bytes) (buffer : Bytes) :
    takeFrames frames buffer = match extractPacketFrame buffer with
      | (_, rest, some e) => (frames, rest, some (.inl e))
      | (some f, rest, none) => takeFrames (frames ++ [f]) rest
      | (none, rest, none) => (frames, rest, none) := by
  rw [takeFrames, Framing.drain_eq, packetFraming_cut]
  rcases h : extractPacketFrame buffer with ⟨_ | f, rest, _ | e⟩
  · rw [extractPacketFrame_none h]
  · rw [extractPacketFrame_bad h]
  · rfl
  · rw [extractPacketFrame_bad h]

/-- The receive loop on the chunks, from an empty buffer. -/
def receiveFrames (chunks : List Bytes) : Received :=
  packetFraming.feedAll Framing.collect ([], [], none) chunks

theorem receiveFrames_eq (chunks : List Bytes) : receiveFrames chunks = takeFrames [] chunks.flatten :=
  packetFraming.feedAll_drain chunks rfl

/-- **The segmentation does not matter.**  Two cuttings of a stream give the same frames, the
    same buffer and the same error; without an error the frames and the buffer are the stream. -/
theorem segmentation {stream : Bytes} {cs cs' : List Bytes} (h : Cutting stream cs)
    (h' : Cutting stream cs') :
    receiveFrames cs = receiveFrames cs' ∧
      ∀ frames buffer, receiveFrames cs = (frames, buffer, none) →
        frames.flatten ++ buffer = stream := by
  constructor
  · rw [receiveFrames_eq, receiveFrames_eq, h.flatten, h'.flatten]
  · intro frames buffer hreceive
    rw [receiveFrames_eq, h.flatten] at hreceive
    have hsplit := (packetFraming.drain_collect hreceive).2 rfl
    simpa using hsplit

/-- Two frames and the start of a third, cut inside the headers. -/
theorem segmentation_sample :
    let stream := packetOf [1] ++ packetOf [2, 3] ++ [0x91]
    receiveFrames [[0x91], [0x93, 0, 0, 0, 1, 1, 0x91, 0x93, 0], [0, 0, 2, 2, 3, 0x91]] =
        receiveFrames [stream] ∧
      ∀ frames buffer, receiveFrames [[0x91], [0x93, 0, 0, 0, 1, 1, 0x91, 0x93, 0],
        [0, 0, 2, 2, 3, 0x91]] = (frames, buffer, none) → frames.flatten ++ buffer = stream :=
  segmentation (by decide) (by decide)

/-! ## The three readers -/

/-- What a call of `read_packet_frame` comes to: a frame and the chunks not received, an
    error, or the buffer it waits with. -/
inductive ReadFrame where
  | frame (f : Bytes) (chunks : List Bytes)
  | invalid (e : ℕ)
  | waiting (buffer : Bytes)
  deriving DecidableEq, Repr

/-- `read_packet_frame`; what is left of the buffer is gone when it returns. -/
def readPacketFrame (buffer : Bytes) (chunks : List Bytes) : ReadFrame :=
  match extractPacketFrame buffer with
  | (_, _, some e) => .invalid e
  | (some f, _, none) => .frame f chunks
  | (none, buffer, none) => match chunks with
    | [] => .waiting buffer
    | chunk :: chunks => readPacketFrame (buffer ++ chunk) chunks

/-- The frames of a connection behind the public key: the password, the response, and those
    of `handle_client`. -/
def processed (chunks : List Bytes) : List Bytes :=
  match readPacketFrame [] chunks with
  | .frame f chunks => match readPacketFrame [] chunks with
    | .frame g chunks => f :: g :: (receiveFrames chunks).1
    | _ => [f]
  | _ => []

/-- A chunk ends after `n` bytes. -/
def EndsAt (chunks : List Bytes) (n : ℕ) : Prop := ∃ j, (chunks.take j).flatten.length = n

/-- No chunk goes over the end of the first frame or of the second. -/
def Aligned (frames chunks : List Bytes) : Prop :=
  EndsAt chunks (frames.take 1).flatten.length ∧ EndsAt chunks (frames.take 2).flatten.length

/-- A frame that is complete by its own header. -/
def WellFormed (f : Bytes) : Prop := ∃ ct : Bytes, ct.length < 2 ^ 32 ∧ f = packetOf ct

theorem WellFormed.complete {f : Bytes} (h : WellFormed f) : packetFraming.Complete f := by
  obtain ⟨ct, hct, rfl⟩ := h
  exact cutPacket_packetOf hct

/-- More chunks. -/
theorem flatten_take (chunks : List Bytes) {m j : ℕ} (h : m ≤ j) :
    (chunks.take j).flatten = (chunks.take m).flatten ++ ((chunks.drop m).take (j - m)).flatten := by
  rw [← List.flatten_append, ← List.take_add, Nat.add_sub_cancel' h]

section
variable {b f rest : Bytes} {chunks cs : List Bytes}

/-- `read_packet_frame` by the cut of its buffer. -/
theorem readPacketFrame_eq (buffer : Bytes) (chunks : List Bytes) :
    readPacketFrame buffer chunks = match packetFraming.cut buffer with
      | .bad e => .invalid e
      | .frame f _ => .frame f chunks
      | .more => match chunks with
        | [] => .waiting buffer
        | chunk :: chunks => readPacketFrame (buffer ++ chunk) chunks := by
  rw [readPacketFrame, packetFraming_cut]
  rcases h : extractPacketFrame buffer with ⟨_ | f, rest, _ | e⟩
  · rw [extractPacketFrame_none h]
  · rfl
  · rfl
  · rfl

/-- The step of `accept_clients` when a chunk arrives is the one of `read_packet_frame`. -/
theorem onChunk_readPacketFrame {K : Type} (s : Server K) (buffer chunk : Bytes)
    (waiting : Bytes → Accepting K) (frame : Bytes → Outcome K (Accepting K)) (hc : chunk ≠ []) :
    onChunk s buffer chunk waiting frame = match readPacketFrame (buffer ++ chunk) [] with
      | .frame f _ => frame f
      | .invalid e => logged s (.runtimeError ("Invalid packet frame: " ++ errToHumanReadable e))
      | .waiting rest => (s, .accept (waiting rest), []) := by
  rw [onChunk, if_neg hc, readPacketFrame]
  rcases extractPacketFrame (buffer ++ chunk) with ⟨_ | f, rest, _ | e⟩ <;> rfl

/-- The chunks that a call received are the frame and what stood behind it. -/
theorem readPacketFrame_split (h : readPacketFrame b chunks = .frame f cs) :
    ∃ m lost, cs = chunks.drop m ∧ b ++ (chunks.take m).flatten = f ++ lost := by
  induction chunks generalizing b with
  | nil =>
    rw [readPacketFrame_eq] at h
    cases hc : packetFraming.cut b with
    | more => rw [hc] at h; cases h
    | bad e => rw [hc] at h; cases h
    | frame f' r =>
      rw [hc] at h
      cases h
      exact ⟨0, r, rfl, by rw [(packetFraming.split hc).1]; simp⟩
  | cons c chunks ih =>
    rw [readPacketFrame_eq] at h
    cases hc : packetFraming.cut b with
    | more =>
      rw [hc] at h
      obtain ⟨m, lost, hcs, hb⟩ := ih h
      refine ⟨m + 1, lost, hcs, ?_⟩
      rw [List.take_succ_cons, List.flatten_cons, ← List.append_assoc]
      exact hb
    | bad e => rw [hc] at h; cases h
    | frame f' r =>
      rw [hc] at h
      cases h
      exact ⟨0, r, rfl, by rw [(packetFraming.split hc).1]; simp⟩

/-- A call on a stream that starts with a complete frame gives it, and receives no chunk more
    than it needs. -/
theorem readPacketFrame_complete (hf : packetFraming.Complete f)
    (h : b ++ chunks.flatten = f ++ rest) :
    ∃ m, readPacketFrame b chunks = .frame f (chunks.drop m) ∧
      ∀ j, f.length ≤ (b ++ (chunks.take j).flatten).length → m ≤ j := by
  induction chunks generalizing b with
  | nil =>
    rw [List.flatten_nil, List.append_nil] at h
    refine ⟨0, ?_, fun j _ => Nat.zero_le j⟩
    rw [readPacketFrame_eq, h, hf rest]
    rfl
  | cons c chunks ih =>
    cases hc : packetFraming.cut b with
    | more =>
      rw [List.flatten_cons, ← List.append_assoc] at h
      obtain ⟨m, hread, hmin⟩ := ih h
      refine ⟨m + 1, ?_, ?_⟩
      · rw [readPacketFrame_eq, hc]
        exact hread
      · intro j hj
        cases j with
        | zero =>
          -- the frame would stand in the buffer
          rw [List.take_zero, List.flatten_nil, List.append_nil] at hj
          rw [List.append_assoc] at h
          obtain ⟨r, rfl⟩ := List.prefix_of_prefix_length_le ⟨rest, rfl⟩ ⟨_, h⟩ hj
          rw [hf r] at hc
          cases hc
        | succ j =>
          rw [List.take_succ_cons, List.flatten_cons, ← List.append_assoc] at hj
          exact Nat.succ_le_succ (hmin j hj)
    | bad e =>
      have := packetFraming.bad_append (c :: chunks).flatten hc
      rw [h, hf rest] at this
      cases this
    | frame f' r =>
      have := packetFraming.frame_append (c :: chunks).flatten hc
      rw [h, hf rest] at this
      cases this
      refine ⟨0, ?_, fun j _ => Nat.zero_le j⟩
      rw [readPacketFrame_eq, hc]
      rfl

/-- If a chunk ends with the frame, the call leaves the next chunks and nothing is gone. -/
theorem readPacketFrame_aligned (hf : packetFraming.Complete f)
    (h : chunks.flatten = f ++ rest) (hend : EndsAt chunks f.length) :
    ∃ m, readPacketFrame [] chunks = .frame f (chunks.drop m) ∧ (chunks.take m).flatten = f ∧
      (chunks.drop m).flatten = rest := by
  obtain ⟨m, hread, hmin⟩ := readPacketFrame_complete (b := []) hf h
  obtain ⟨j, hj⟩ := hend
  have hmj : m ≤ j := hmin j (by rw [List.nil_append]; omega)
  obtain ⟨m', lost, hdrop, htake⟩ := readPacketFrame_split hread
  rw [List.nil_append] at htake
  -- what was received is no longer than the chunks up to the end of the frame
  have hsplit : (chunks.take m).flatten ++ (chunks.drop m).flatten = f ++ rest := by
    rw [← List.flatten_append, List.take_append_drop, h]
  have hlong : (chunks.take m).flatten.length ≤ f.length := by
    have hlen := congrArg List.length (flatten_take chunks hmj)
    rw [List.length_append] at hlen
    omega
  have hshort : f.length ≤ (chunks.take m).flatten.length := by
    have htotal := congrArg List.length htake
    have hall : (chunks.take m').flatten ++ (chunks.drop m').flatten = f ++ rest := by
      rw [← List.flatten_append, List.take_append_drop, h]
    have h1 := congrArg List.length hall
    have h2 := congrArg List.length hsplit
    rw [← hdrop] at h1
    simp only [List.length_append] at htotal h1 h2
    omega
  obtain ⟨h1, h2⟩ := List.append_inj hsplit (by omega)
  exact ⟨m, hread, h1, h2⟩

/-- Complete frames are taken off the stream one by one. -/
theorem takeFrames_append {fs gs : List Bytes} (hgs : ∀ g ∈ gs, packetFraming.Complete g)
    (rest : Bytes) : takeFrames fs (gs.flatten ++ rest) = takeFrames (fs ++ gs) rest := by
  induction gs generalizing fs with
  | nil => rw [List.append_nil, List.flatten_nil, List.nil_append]
  | cons g gs ih =>
    rw [List.flatten_cons, List.append_assoc, takeFrames,
      packetFraming.drain_frame _ (hgs g (by simp) _) rfl]
    have hrest : takeFrames (fs ++ [g]) (gs.flatten ++ rest) = takeFrames (fs ++ [g] ++ gs) rest :=
      ih fun x hx => hgs x (by simp [hx])
    rw [takeFrames, List.append_assoc] at hrest
    exact hrest

theorem takeFrames_flatten {fs gs : List Bytes} (hgs : ∀ g ∈ gs, packetFraming.Complete g) :
    takeFrames fs gs.flatten = (fs ++ gs, [], none) := by
  rw [← List.append_nil gs.flatten, takeFrames_append hgs]
  exact packetFraming.drain_more _ rfl

end

/-- **The frames of a connection are the frames sent** if and only if no chunk goes over the
    end of the first frame or of the second. -/
theorem processed_iff {frames chunks : List Bytes} (hframes : ∀ f ∈ frames, WellFormed f)
    (hcut : Cutting frames.flatten chunks) : processed chunks = frames ↔ Aligned frames chunks := by
  have hall := hcut.flatten
  have hend : EndsAt chunks frames.flatten.length := ⟨chunks.length, by rw [List.take_length, hall]⟩
  -- without chunks there are no frames
  have hnone : ∀ {cs : List Bytes}, (∀ c ∈ cs, c ≠ []) → cs.flatten = [] →
      readPacketFrame [] cs = .waiting [] := by
    intro cs hne hcs
    have : cs = [] := by
      cases cs with
      | nil => rfl
      | cons c cs => exact absurd (List.append_eq_nil_iff.1 hcs).1 (hne c (by simp))
    rw [this]
    rfl
  cases frames with
  | nil =>
    refine iff_of_true ?_ ⟨⟨0, rfl⟩, ⟨0, rfl⟩⟩
    rw [processed, hnone hcut.ne_nil hall]
  | cons f frames =>
    have hf := (hframes f (by simp)).complete
    obtain ⟨m, hread, -⟩ := readPacketFrame_complete (b := []) hf hall
    cases frames with
    | nil =>
      refine iff_of_true ?_ ⟨hend, hend⟩
      rw [List.flatten_singleton] at hend
      obtain ⟨m', hread', -, hrest⟩ := readPacketFrame_aligned hf hall hend
      rw [processed, hread']
      simp only
      rw [hnone (fun c hc => hcut.ne_nil c (List.mem_of_mem_drop hc)) hrest]
    | cons g frames =>
      have hg := (hframes g (by simp)).complete
      have hgs : ∀ x ∈ frames, packetFraming.Complete x := fun x hx =>
        (hframes x (by simp [hx])).complete
      have htwo : ((f :: g :: frames).take 2).flatten = f ++ g := by simp
      have hone : ((f :: g :: frames).take 1).flatten = f := by simp
      rw [Aligned, hone, htwo]
      constructor
      · intro hp
        rw [processed, hread] at hp
        simp only at hp
        obtain ⟨m₁, lost₁, hcs, hsplit₁⟩ := readPacketFrame_split hread
        rcases hread₂ : readPacketFrame [] (chunks.drop m) with ⟨g', cs⟩ | e | buffer
        · rw [hread₂] at hp
          simp only [List.cons.injEq, true_and] at hp
          obtain ⟨rfl, hfs⟩ := hp
          obtain ⟨m₂, lost₂, rfl, hsplit₂⟩ := readPacketFrame_split hread₂
          rw [hcs] at hfs hsplit₂
          rw [List.nil_append] at hsplit₁ hsplit₂
          -- the frames are as long as what was sent, so nothing stood behind the first two
          have hpre : frames.flatten <+: ((chunks.drop m₁).drop m₂).flatten := by
            rw [← hfs, receiveFrames_eq]
            exact (packetFraming.drain_collect rfl).1
          have htotal : chunks.flatten = (chunks.take m₁).flatten ++
              (((chunks.drop m₁).take m₂).flatten ++ ((chunks.drop m₁).drop m₂).flatten) := by
            rw [← List.flatten_append, ← List.flatten_append, List.take_append_drop,
              List.take_append_drop]
          have hlen := congrArg List.length (hall.symm.trans htotal)
          have hlong := hpre.length_le
          have hlen₁ := congrArg List.length hsplit₁
          have hlen₂ := congrArg List.length hsplit₂
          simp only [List.flatten_cons, List.length_append] at hlen hlen₁ hlen₂
          refine ⟨⟨m₁, by omega⟩, ⟨m₁ + m₂, ?_⟩⟩
          rw [flatten_take chunks (Nat.le_add_right m₁ m₂), Nat.add_sub_cancel_left,
            List.length_append, List.length_append]
          omega
        · rw [hread₂] at hp
          cases hp
        · rw [hread₂] at hp
          cases hp
      · rintro ⟨hend₁, hend₂⟩
        obtain ⟨m₁, hread₁, htake₁, hdrop₁⟩ := readPacketFrame_aligned hf hall hend₁
        have hend₂' : EndsAt (chunks.drop m₁) g.length := by
          obtain ⟨j, hj⟩ := hend₂
          rw [List.length_append] at hj
          rcases Nat.le_total m₁ j with hle | hle
          · have hlen := congrArg List.length (flatten_take chunks hle)
            rw [List.length_append, htake₁] at hlen
            exact ⟨j - m₁, by omega⟩
          · have hlen := congrArg List.length (flatten_take chunks hle)
            rw [List.length_append, htake₁] at hlen
            refine ⟨0, ?_⟩
            rw [List.take_zero, List.flatten_nil, List.length_nil]
            omega
        obtain ⟨m₂, hread₂, -, hdrop₂⟩ := readPacketFrame_aligned hg hdrop₁ hend₂'
        rw [processed, hread₁]
        simp only
        rw [hread₂]
        simp only
        rw [receiveFrames_eq, hdrop₂, takeFrames_flatten hgs]
        rfl

/-- The frames of a client that waits for the answers. -/
theorem processed_sample :
    (∀ f ∈ [packetOf [1], packetOf [2, 3], packetOf [4]], WellFormed f) ∧
      (processed [packetOf [1], packetOf [2, 3], packetOf [4]] =
          [packetOf [1], packetOf [2, 3], packetOf [4]] ↔
        Aligned [packetOf [1], packetOf [2, 3], packetOf [4]]
          [packetOf [1], packetOf [2, 3], packetOf [4]]) := by
  have hframes : ∀ f ∈ [packetOf [1], packetOf [2, 3], packetOf [4]], WellFormed f := by
    intro f hf
    simp only [List.mem_cons, List.not_mem_nil, or_false] at hf
    rcases hf with rfl | rfl | rfl
    · exact ⟨[1], by decide, rfl⟩
    · exact ⟨[2, 3], by decide, rfl⟩
    · exact ⟨[4], by decide, rfl⟩
  exact ⟨hframes, processed_iff hframes (by decide)⟩

/-- **Lost bytes.**  The chunk with the end of the second frame carries the third: the loop of
    `handle_client` never gets it. -/
theorem processed_loses :
    (∀ f ∈ [packetOf [1], packetOf [2, 3], packetOf [4]], WellFormed f) ∧
      Cutting [packetOf [1], packetOf [2, 3], packetOf [4]].flatten
        [packetOf [1], packetOf [2, 3] ++ packetOf [4]] ∧
      processed [packetOf [1], packetOf [2, 3] ++ packetOf [4]] = [packetOf [1], packetOf [2, 3]] := by
  refine ⟨?_, by decide, by decide⟩
  intro f hf
  simp only [List.mem_cons, List.not_mem_nil, or_false] at hf
  rcases hf with rfl | rfl | rfl
  · exact ⟨[1], by decide, rfl⟩
  · exact ⟨[2, 3], by decide, rfl⟩
  · exact ⟨[4], by decide, rfl⟩

end Pipebomb
