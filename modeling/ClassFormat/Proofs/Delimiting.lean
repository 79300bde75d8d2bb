import ClassFormat.Proofs.Reading
/-!
# Readers that find their own end

A reader of the format knows where to stop from what it has read, and never looks further. So what
follows does not matter to it, and an input that stops anywhere before can only end too soon: no
other complaint is raised ahead of the bytes that are missing.

`reader.Delimits alike other` states this of two readers at once: whatever the first takes off an
input, the second takes something alike off the very same bytes. For one reader the two are the
same, with equality for `alike`. Two readers are needed where the same bytes are read into two
pools, whose handles differ. Each way of building readers keeps the property.
-/

namespace ClassFormat

namespace Reader

variable {α β γ δ σ : Type} {input rest : Bytes} {notices : List Notice}

/-- A reader fails because the input ends too soon. -/
def EndsEarly (reader : Reader α) (input : Bytes) : Prop :=
  ∃ wanted, (reader input).outcome = .error (.endOfInput wanted)

/-- Whatever a reader takes, the other one takes something alike off the same bytes, whatever
follows, and finds that fewer bytes end too soon. -/
structure Delimits (reader : Reader α) (alike : α → β → Prop) (other : Reader β) : Prop where
  exists_used : ∀ {input : Bytes} {value : α} {rest : Bytes} {notices : List Notice},
    reader.Reads input value rest notices → ∃ used found left, input = used ++ rest
      ∧ alike value found ∧ (∀ behind, other.Reads (used ++ behind) found behind left)
      ∧ ∀ start missing, used = start ++ missing → missing ≠ [] → other.EndsEarly start

/-- A reader takes nothing off any input. -/
def Skips (reader : Reader α) : Prop :=
  ∃ value notices, ∀ input, reader.Reads input value input notices

theorem skips_pure (value : α) : (pure value : Reader α).Skips :=
  ⟨value, [], fun _ => reads_pure.mpr ⟨rfl, rfl, rfl⟩⟩

theorem skips_note (notice : Notice) (value : α) :
    (do Reader.note notice; return value : Reader α).Skips :=
  ⟨value, [notice], fun input => reads_bind.mpr ⟨(), input, [notice], [],
    reads_note.mpr ⟨rfl, rfl⟩, reads_pure.mpr ⟨rfl, rfl, rfl⟩, rfl⟩⟩

/-! ## Inputs that end too soon -/

/-- Input that ends early for the first reader ends early for whatever follows it. -/
theorem EndsEarly.bind {reader : Reader α} (h : reader.EndsEarly input) (next : α → Reader β) :
    (reader >>= next).EndsEarly input := by
  obtain ⟨wanted, hfail⟩ := h
  have hreading : reader input = ⟨.error (.endOfInput wanted), (reader input).notices⟩ := by
    rw [← hfail]
  exact ⟨wanted, by rw [run_bind_error hreading]⟩

/-- Input may end early behind what the first reader took. -/
theorem EndsEarly.bind_of_reads {reader : Reader α} {value : α} {next : α → Reader β}
    (h : (next value).EndsEarly rest) (hreads : reader.Reads input value rest notices) :
    (reader >>= next).EndsEarly input := by
  obtain ⟨wanted, hfail⟩ := h
  exact ⟨wanted, by rw [run_bind_ok hreads, hfail]⟩

/-- Where bytes are missing from a row of two stretches, they are missing from the first, or the
first is complete. -/
theorem missing_append {first second start missing : Bytes}
    (h : first ++ second = start ++ missing) :
    (∃ lacking, first = start ++ lacking ∧ lacking ≠ [])
      ∨ ∃ middle, start = first ++ middle ∧ second = middle ++ missing := by
  rcases List.append_eq_append_iff.mp h with ⟨middle, hstart, hsecond⟩ | ⟨lacking, hfirst, hmissing⟩
  · exact .inr ⟨middle, hstart, hsecond⟩
  · by_cases hlacking : lacking = []
    · subst hlacking
      exact .inr ⟨[], by simpa using hfirst.symm, by simpa using hmissing.symm⟩
    · exact .inl ⟨lacking, hfirst, hlacking⟩

namespace Delimits

variable {reader : Reader α} {other : Reader β} {alike : α → β → Prop} {related : γ → δ → Prop}

/-! ## Ways of building a reader -/

/-- What takes nothing off the input needs no more of it than there is. -/
theorem of_reads_nothing (h : ∀ {input value rest notices}, reader.Reads input value rest notices →
      rest = input ∧ ∃ found left, alike value found
        ∧ ∀ behind, other.Reads behind found behind left) :
    reader.Delimits alike other := by
  refine ⟨fun hreads => ?_⟩
  obtain ⟨rfl, found, left, halike, hfound⟩ := h hreads
  refine ⟨[], found, left, rfl, halike, hfound, fun start missing hnil hne => ?_⟩
  exact absurd (List.append_eq_nil_iff.mp hnil.symm).2 hne

protected theorem pure {value : α} {found : β} (h : alike value found) :
    (pure value : Reader α).Delimits alike (pure found) := by
  refine of_reads_nothing fun hreads => ?_
  obtain ⟨rfl, rfl, rfl⟩ := reads_pure.mp hreads
  exact ⟨rfl, found, [], h, fun behind => reads_pure.mpr ⟨rfl, rfl, rfl⟩⟩

theorem fail (cause : Error) : (Reader.fail cause).Delimits alike other :=
  ⟨fun hreads => absurd hreads reads_fail⟩

theorem note (notice remark : Notice) :
    (Reader.note notice).Delimits (· = ·) (Reader.note remark) := by
  refine of_reads_nothing fun hreads => ?_
  obtain ⟨rfl, rfl⟩ := reads_note.mp hreads
  exact ⟨rfl, (), [remark], rfl, fun behind => reads_note.mpr ⟨rfl, rfl⟩⟩

theorem ofExcept {result : Except Error α} {later : Except Error β}
    (h : ∀ value, result = .ok value → ∃ found, later = .ok found ∧ alike value found) :
    (Reader.ofExcept result).Delimits alike (Reader.ofExcept later) := by
  refine of_reads_nothing fun hreads => ?_
  obtain ⟨hresult, rfl, rfl⟩ := reads_ofExcept.mp hreads
  obtain ⟨found, hfound, halike⟩ := h _ hresult
  exact ⟨rfl, found, [], halike, fun behind => reads_ofExcept.mpr ⟨hfound, rfl, rfl⟩⟩

theorem imp {others : α → β → Prop} (h : reader.Delimits alike other)
    (himp : ∀ value found, alike value found → others value found) :
    reader.Delimits others other := by
  refine ⟨fun hreads => ?_⟩
  obtain ⟨used, found, left, hinput, halike, hfound⟩ := h.exists_used hreads
  exact ⟨used, found, left, hinput, himp _ _ halike, hfound⟩

/-- Missing bytes are missing from the first part, or from the second behind a complete first. -/
theorem bind {next : α → Reader γ} {later : β → Reader δ} (h : reader.Delimits alike other)
    (hnext : ∀ value found, alike value found → (next value).Delimits related (later found)) :
    (reader >>= next).Delimits related (other >>= later) := by
  refine ⟨fun hreads => ?_⟩
  obtain ⟨first, middle, before, behind, hfirst, hsecond, rfl⟩ := reads_bind.mp hreads
  obtain ⟨used, found, left, rfl, halike, hother, hshort⟩ := h.exists_used hfirst
  obtain ⟨taken, result, remarks, rfl, hrelated, hlater, hends⟩ :=
    (hnext _ _ halike).exists_used hsecond
  refine ⟨used ++ taken, result, left ++ remarks, (List.append_assoc ..).symm, hrelated, ?_, ?_⟩
  · intro behind
    rw [List.append_assoc]
    exact reads_bind.mpr ⟨found, taken ++ behind, left, remarks, hother _, hlater behind, rfl⟩
  · intro start missing heq hne
    rcases missing_append heq with ⟨lacking, hused, hlacking⟩ | ⟨rest, rfl, htaken⟩
    · exact (hshort start lacking hused hlacking).bind later
    · exact (hends rest missing htaken hne).bind_of_reads (hother rest)

theorem map {f : α → γ} {g : β → δ} (h : reader.Delimits alike other)
    (hmap : ∀ value found, alike value found → related (f value) (g found)) :
    (f <$> reader).Delimits related (g <$> other) := by
  rw [← bind_pure_comp, ← bind_pure_comp]
  exact h.bind fun value found halike => .pure (hmap value found halike)

/-- What takes nothing in any case finds its end at once. -/
theorem of_skips (h : reader.Skips) (hother : other.Skips) :
    reader.Delimits (fun _ _ => True) other := by
  refine of_reads_nothing fun {input value rest notices} hreads => ?_
  obtain ⟨skipped, remarks, hskips⟩ := h
  obtain ⟨found, left, hfound⟩ := hother
  have hread := hreads.symm.trans (hskips input)
  simp only [Reading.mk.injEq, Except.ok.injEq, Prod.mk.injEq] at hread
  exact ⟨hread.1.2, found, left, trivial, hfound⟩

/-! ## Blocks and numbers -/

protected theorem take (wanted : Shortfall) (length : Nat) :
    (take wanted length).Delimits (· = ·) (take wanted length) := by
  refine ⟨fun {input value rest notices} hreads => ?_⟩
  obtain ⟨rfl, hlength, rfl⟩ := reads_take.mp hreads
  refine ⟨value, value, [], rfl, rfl, fun behind => reads_take.mpr ⟨rfl, hlength, rfl⟩, ?_⟩
  rintro start missing rfl hne
  have hpos := List.length_pos_iff.mpr hne
  rw [List.length_append] at hlength
  refine ⟨wanted, ?_⟩
  rw [take, if_neg (by rw [List.length_take]; omega)]

protected theorem block (length : Nat) : (block length).Delimits (· = ·) (block length) :=
  .take .block length

protected theorem number (width : Nat) : (number width).Delimits (· = ·) (number width) :=
  (Delimits.take .number width).map fun _ _ => congrArg BigEndian.decode

protected theorem u8 : u8.Delimits (· = ·) u8 := (Delimits.number 1).map fun _ _ => congrArg _

protected theorem u16 : u16.Delimits (· = ·) u16 := (Delimits.number 2).map fun _ _ => congrArg _

protected theorem u32 : u32.Delimits (· = ·) u32 := (Delimits.number 4).map fun _ _ => congrArg _

protected theorem u64 : u64.Delimits (· = ·) u64 := (Delimits.number 8).map fun _ _ => congrArg _

protected theorem i32 : i32.Delimits (· = ·) i32 := Delimits.u32.map fun _ _ => congrArg _

protected theorem i64 : i64.Delimits (· = ·) i64 := Delimits.u64.map fun _ _ => congrArg _

/-! ## Repetition -/

/-- A loop over the same states, since they decide where it ends. -/
protected theorem loop {more : σ → Bool} {step : σ → Reader σ}
    (h : ∀ state, (step state).Delimits (· = ·) (step state)) (bound : Nat) (state : σ) :
    (loop more step bound state).Delimits (· = ·) (loop more step bound state) := by
  induction bound generalizing state with
  | zero =>
    rw [loop_zero]
    exact .pure rfl
  | succ bound ih =>
    rw [loop_succ]
    split
    · refine (h state).bind ?_
      rintro next _ rfl
      exact ih next
    · exact .pure rfl

/-- A fixed number of steps, which may be over different states. -/
protected theorem times {τ : Type} {step : σ → Reader σ} {later : τ → Reader τ}
    {alike : σ → τ → Prop}
    (h : ∀ state found, alike state found → (step state).Delimits alike (later found))
    (count : Nat) {state : σ} {found : τ} (hstate : alike state found) :
    (times count step state).Delimits alike (times count later found) := by
  induction count generalizing state found with
  | zero =>
    rw [times_zero, times_zero]
    exact .pure hstate
  | succ count ih =>
    rw [times_succ, times_succ]
    exact (h state found hstate).bind fun _ _ => ih

protected theorem many (h : reader.Delimits alike other) (count : Nat) :
    (many count reader).Delimits (fun _ _ => True) (many count other) := by
  have hstep : ∀ (found : List α) (others : List β), True →
      ((· :: found) <$> reader).Delimits (fun _ _ => True) ((· :: others) <$> other) := by
    intro found others _
    exact h.map fun _ _ _ => trivial
  exact map (.times hstep count trivial) fun _ _ _ => trivial

protected theorem sequence (h : reader.Delimits alike other) :
    (sequence reader).Delimits (fun _ _ => True) (sequence other) := by
  refine Delimits.u16.bind ?_
  rintro count _ rfl
  exact h.many count.toNat

protected theorem shortSequence (h : reader.Delimits alike other) :
    (shortSequence reader).Delimits (fun _ _ => True) (shortSequence other) := by
  refine Delimits.u8.bind ?_
  rintro count _ rfl
  exact h.many count.toNat

end Delimits

end Reader

end ClassFormat
