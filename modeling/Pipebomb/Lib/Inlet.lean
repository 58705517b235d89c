/-
  One end of a byte stream that carries messages one after the other.

  `Inlet msgs pos b feed`: of the messages `msgs` the first `pos` were taken off the stream;
  of the bytes of the others `b` are in the reader's buffer and `feed` is on its way.

  * `grow`: more messages are written; `arrive`: a chunk gets into the buffer.
  * `cut`: the reader's framing waits for more or cuts off exactly the next message, if the
    messages are complete frames.
  * `hungry`: a reader that waits for a message that was written has bytes on their way.
  * `drain`: the rule for a loop that takes every frame off the buffer.
-/
import Pipebomb.Lib.Framing

namespace Framing

variable {α ε : Type} (F : Framing α ε)

/-- The frame is cut off every stream that starts with it. -/
def Complete (f : List α) : Prop := ∀ r, F.cut (f ++ r) = .frame f r

/-- **The front of a stream of complete frames**: the buffer waits for more, or the first
    frame is cut off it. -/
theorem cut_flatten (hnil : F.cut [] = .more) {fs : List (List α)}
    (hfs : ∀ f ∈ fs, F.Complete f) {b rest : List α} (h : b ++ rest = fs.flatten) :
    F.cut b = .more ∨
      ∃ f fs' r, fs = f :: fs' ∧ F.cut b = .frame f r ∧ r ++ rest = fs'.flatten := by
  cases fs with
  | nil =>
    obtain ⟨rfl, -⟩ := List.append_eq_nil_iff.1 h
    exact .inl hnil
  | cons f fs =>
    have hf : F.cut (b ++ rest) = .frame f fs.flatten := by
      rw [h, List.flatten_cons]
      exact hfs f (by simp) _
    cases hc : F.cut b with
    | more => exact .inl rfl
    | bad e =>
      rw [F.bad_append rest hc] at hf
      cases hf
    | frame f' r =>
      rw [F.frame_append rest hc] at hf
      obtain ⟨rfl, hr⟩ := Cut.frame.inj hf
      exact .inr ⟨f', fs, r, rfl, rfl, hr⟩

end Framing

/-- The reader's end of a stream. -/
structure Inlet {α : Type} (msgs : List (List α)) (pos : ℕ) (b feed : List α) : Prop where
  pos_le : pos ≤ msgs.length
  bytes : b ++ feed = (msgs.drop pos).flatten

namespace Inlet

variable {α ε σ η : Type} {msgs : List (List α)} {pos : ℕ} {b feed : List α}

/-- A stream on which nothing was written. -/
theorem nil : Inlet ([] : List (List α)) 0 [] [] := ⟨Nat.le_refl 0, rfl⟩

/-- More messages are written. -/
theorem grow (h : Inlet msgs pos b feed) (ms : List (List α)) :
    Inlet (msgs ++ ms) pos b (feed ++ ms.flatten) := by
  refine ⟨?_, ?_⟩
  · rw [List.length_append]
    exact Nat.le_add_right_of_le h.pos_le
  · rw [← List.append_assoc, h.bytes, List.drop_append_of_le_length h.pos_le, List.flatten_append]

/-- A chunk arrives. -/
theorem arrive (h : Inlet msgs pos b feed) {chunk : List α} (hc : chunk <+: feed) :
    Inlet msgs pos (b ++ chunk) (feed.drop chunk.length) := by
  obtain ⟨rest, rfl⟩ := hc
  refine ⟨h.pos_le, ?_⟩
  rw [List.drop_left, List.append_assoc]
  exact h.bytes

/-- Everything was taken: nothing is in the buffer or on its way. -/
theorem empty (h : Inlet msgs pos b feed) (hpos : pos = msgs.length) : b = [] ∧ feed = [] := by
  have := h.bytes
  rw [hpos, List.drop_length, List.flatten_nil] at this
  exact List.append_eq_nil_iff.1 this

/-- The buffer was emptied by hand, of nothing. -/
theorem clear (h : Inlet msgs pos b feed) (hpos : pos = msgs.length) : Inlet msgs pos [] feed := by
  obtain ⟨rfl, rfl⟩ := h.empty hpos
  exact h

/-- As many bytes as the next message has: they are the message. -/
theorem exactly (h : Inlet msgs pos b feed) {m : List α} (hm : msgs[pos]? = some m)
    (hlen : b.length = m.length) : b = m ∧ Inlet msgs (pos + 1) [] feed := by
  obtain ⟨hlt, rfl⟩ := List.getElem?_eq_some_iff.1 hm
  have hbytes := h.bytes
  rw [List.drop_eq_getElem_cons hlt, List.flatten_cons] at hbytes
  obtain ⟨hb, hfeed⟩ := List.append_inj hbytes hlen
  exact ⟨hb, hlt, hfeed⟩

variable (F : Framing α ε) (act : σ → List α → σ × Option η)

/-- **The next message is cut off, or the reader waits.** -/
theorem cut (hnil : F.cut [] = .more) (h : Inlet msgs pos b feed)
    (hfs : ∀ f ∈ msgs.drop pos, F.Complete f) :
    F.cut b = .more ∨
      ∃ f r, msgs[pos]? = some f ∧ F.cut b = .frame f r ∧ Inlet msgs (pos + 1) r feed := by
  rcases F.cut_flatten hnil hfs h.bytes with hc | ⟨f, fs, r, hd, hc, hr⟩
  · exact .inl hc
  · have hlt : pos < msgs.length := by
      by_contra hge
      rw [List.drop_eq_nil_of_le (by omega)] at hd
      cases hd
    rw [List.drop_eq_getElem_cons hlt] at hd
    obtain ⟨rfl, rfl⟩ := List.cons.inj hd
    exact .inr ⟨_, r, List.getElem?_eq_getElem hlt, hc, hlt, hr⟩

/-- A reader that waits for a message that was written: bytes are on their way. -/
theorem hungry (h : Inlet msgs pos b feed) (hfs : ∀ f ∈ msgs.drop pos, F.Complete f)
    (hmore : F.cut b = .more) (hlt : pos < msgs.length) : feed ≠ [] := by
  rintro rfl
  have hbytes := h.bytes
  rw [List.append_nil, List.drop_eq_getElem_cons hlt, List.flatten_cons] at hbytes
  have hmem : msgs[pos] ∈ msgs.drop pos := by
    rw [List.drop_eq_getElem_cons hlt]
    exact List.mem_cons_self
  have hframe := hfs msgs[pos] hmem (msgs.drop (pos + 1)).flatten
  rw [← hbytes, hmore] at hframe
  cases hframe

/-- **The rule for a loop that drains the buffer.**  `P` is kept by every frame that is taken
    and says how many were; `Q` holds where the loop stops. -/
theorem drain {P : σ → ℕ → Prop} {Q : σ → Prop} (hnil : F.cut [] = .more)
    (hnext : ∀ {s s' pos f}, P s pos → msgs[pos]? = some f → act s f = (s', none) → P s' (pos + 1))
    (hstop : ∀ {s s' pos f e}, P s pos → msgs[pos]? = some f → act s f = (s', some e) → Q s')
    {s : σ} (h : Inlet msgs pos b feed) (hfs : ∀ f ∈ msgs.drop pos, F.Complete f) (hP : P s pos) :
    (∃ s' b' pos', F.drain act s b = (s', b', none) ∧ P s' pos' ∧ Inlet msgs pos' b' feed) ∨
      ∃ s' b' e, F.drain act s b = (s', b', some (.inr e)) ∧ Q s' := by
  induction b using F.buffer_induct generalizing s pos with
  | h b ih =>
    rcases h.cut F hnil hfs with hc | ⟨f, r, hf, hc, hr⟩
    · exact .inl ⟨s, b, pos, F.drain_more act hc, hP, h⟩
    · rcases ha : act s f with ⟨s', _ | e⟩
      · rw [F.drain_frame act hc ha]
        refine ih f r hc hr (fun g hg => hfs g ?_) (hnext hP hf ha)
        rw [← List.drop_drop] at hg
        exact List.mem_of_mem_drop hg
      · exact .inr ⟨s', r, e, F.drain_stop act hc ha, hstop hP hf ha⟩

end Inlet
