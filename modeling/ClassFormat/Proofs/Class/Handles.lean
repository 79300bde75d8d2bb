import ClassFormat.Proofs.Class.DecodedHandles
/-!
# Handles of a program

A program cannot make a handle that says a kind; it has the ones that pools gave out. A `Session` is
what a program has: its pools, each under a tag of its own, and for each pool the handles it gave
out. A step of the program makes a pool or reads one, finds something in a pool, or changes a pool.
Whatever handles it passes are some that it has, be they of that pool or of another.

So handles are `Sound` at any time: each is on a constant of the pool that gave it out, and this
constant is of the kind that the handle says. A step keeps this (`Step.cases`), and since pools only
grow, it stays so (`Session.handles_sound`).
-/

namespace ClassFormat

/-- A pool, and the handles of some kind that it gave out. -/
structure Issuer where
  pool : Pool
  issued : List TypedId

/-- The pools that a program has, each under its tag. -/
structure Session where
  issuer? : PoolTag → Option Issuer

/-- What is found in a pool without changing it, by the handles of some kind in it. -/
inductive Pool.Finds (pool : Pool) : List TypedId → Prop where
  | utf8 {index : UInt16} {name : Utf8Id} (h : pool.utf8At index = .ok name) :
    Finds pool [.utf8 name]
  | classInfo {index : UInt16} {owner : ClassId} (h : pool.classAt index = .ok owner) :
    Finds pool [.classInfo owner]
  | nameAndType {index : UInt16} {member : NameAndTypeId}
    (h : pool.nameAndTypeAt index = .ok member) : Finds pool [.nameAndType member]
  | constant {id : ConstantId} {constant : Constant} (h : pool.constant id = .ok constant) :
    Finds pool constant.typedIds
  | decoded {α : Type} {reader : Reader α} {handles : α → List TypedId}
    (hdecodes : pool.Decodes α reader handles) {input rest : Bytes} {value : α}
    {notices : List Notice} (h : reader.Reads input value rest notices) :
    Finds pool (handles value)

namespace Session

/-- Nothing was done yet. -/
def start : Session := ⟨fun _ => none⟩

/-- A session with a pool under a tag. -/
def put (session : Session) (tag : PoolTag) (issuer : Issuer) : Session :=
  ⟨Function.update session.issuer? tag (some issuer)⟩

theorem issuer?_put_self (session : Session) (tag : PoolTag) (issuer : Issuer) :
    (session.put tag issuer).issuer? tag = some issuer :=
  Function.update_self ..

theorem issuer?_put_of_ne {session : Session} {tag other : PoolTag} {issuer : Issuer}
    (h : other ≠ tag) : (session.put tag issuer).issuer? other = session.issuer? other :=
  Function.update_of_ne h ..

/-- Whether the program has a handle. -/
def Holds (session : Session) (handle : TypedId) : Prop :=
  ∃ tag issuer, session.issuer? tag = some issuer ∧ handle ∈ issuer.issued

/-- Whether the program has a pool. -/
def HasPool (session : Session) (pool : Pool) : Prop :=
  ∃ tag issuer, session.issuer? tag = some issuer ∧ issuer.pool = pool

/-- One thing that a program does. A new pool has a tag that no other pool of the program has: the
numbers of pools take 32 bits, so this can be had for the first `2 ^ 32` pools. -/
inductive Step (session : Session) : Session → Prop where
  /-- Make a pool without constants. -/
  | made {tag : PoolTag} (hfresh : session.issuer? tag = none) :
    Step session (session.put tag ⟨Pool.empty tag, []⟩)
  /-- Read a pool. -/
  | read {tag : PoolTag} {pool : Pool} (hfresh : session.issuer? tag = none) (h : pool.IsRead tag) :
    Step session (session.put tag ⟨pool, []⟩)
  /-- Read a class with its pool. -/
  | parsed {tag : PoolTag} {verbosity : Verbosity} {input rest : Bytes} {file : ClassFile}
    {notices : List Notice} (hfresh : session.issuer? tag = none)
    (h : (ClassFile.read tag verbosity).Reads input file rest notices) :
    Step session (session.put tag ⟨file.constants, file.typedIds⟩)
  /-- Find something in a pool. -/
  | found {tag : PoolTag} {issuer : Issuer} {handles : List TypedId}
    (hissuer : session.issuer? tag = some issuer) (h : issuer.pool.Finds handles) :
    Step session (session.put tag ⟨issuer.pool, handles ++ issuer.issued⟩)
  /-- Change a pool, or fail to. -/
  | operated {tag : PoolTag} {issuer : Issuer} (operation : Pool.Operation)
    (hissuer : session.issuer? tag = some issuer)
    (hgiven : ∀ handle ∈ operation.given, session.Holds handle)
    (hsource : ∀ source ∈ operation.source?, session.HasPool source) :
    Step session (session.put tag
      ⟨operation.after issuer.pool, operation.issues issuer.pool ++ issuer.issued⟩)
  /-- Copy the constant of a handle into a pool, or fail to. -/
  | copied {tag : PoolTag} {issuer : Issuer} {source : Pool} {handle : TypedId}
    (hissuer : session.issuer? tag = some issuer) (hsource : session.HasPool source)
    (hheld : session.Holds handle) :
    Step session (session.put tag
      ⟨((handle.copy source).apply issuer.pool).2,
        ((handle.copy source).apply issuer.pool).1.toOption.toList ++ issuer.issued⟩)

/-- What a program can have. -/
def Reachable (session : Session) : Prop := Relation.ReflTransGen Step start session

end Session

/-! ## What steps keep -/

/-- A pool under its tag gave out handles on its own constants, and they are of the kinds that the
handles say. -/
structure Issuer.Sound (tag : PoolTag) (issuer : Issuer) : Prop where
  tag_eq : issuer.pool.tag = tag
  reachable : issuer.pool.Reachable
  typed : issuer.pool.TypedFor ConstantTag.SaysKinds
  backs : issuer.pool.Backs issuer.issued

/-- A later state of a pool, with the handles that it gave out. -/
structure Issuer.Follows (later issuer : Issuer) : Prop where
  pool_extends : later.pool.Extends issuer.pool
  issued_subset : issuer.issued ⊆ later.issued

theorem Issuer.Follows.refl (issuer : Issuer) : issuer.Follows issuer :=
  ⟨.refl issuer.pool, List.Subset.refl _⟩

theorem Issuer.Follows.trans {last later issuer : Issuer} (h : last.Follows later)
    (hlater : later.Follows issuer) : last.Follows issuer :=
  ⟨h.pool_extends.trans hlater.pool_extends, List.Subset.trans hlater.issued_subset h.issued_subset⟩

/-- What backs handles keeps backing them while it grows. -/
theorem Pool.Backs.extends {pool later : Pool} {handles : List TypedId} (h : pool.Backs handles)
    (hextends : later.Extends pool) : later.Backs handles :=
  fun handle hhandle => (h handle hhandle).extends hextends

/-- What is found in a pool is on its constants, of the kinds that it says. -/
theorem Pool.Finds.backs {pool : Pool} {handles : List TypedId} (h : pool.Finds handles)
    (htyped : pool.TypedFor ConstantTag.SaysKinds) : pool.Backs handles := by
  cases h with
  | utf8 h => exact backs_utf8 (leads_of_utf8At h) pool.backs_nil
  | classInfo h => exact backs_map_classInfo (List.forall_mem_singleton.mpr (leads_of_classAt h))
  | nameAndType h =>
    exact List.forall_mem_singleton.mpr
      (TypedId.denotesIn_iff_leads.mpr (leads_of_nameAndTypeAt h))
  | constant h => exact htyped.denotesIn_of_constant h
  | decoded hdecodes h => exact hdecodes.gives h

/-- A pool that is made or read has nothing in it that is of another kind than it should be. -/
theorem Issuer.sound_of_isRead {tag : PoolTag} {pool : Pool} {handles : List TypedId}
    (h : pool.IsRead tag) (hbacks : pool.Backs handles) : Issuer.Sound tag ⟨pool, handles⟩ := by
  obtain ⟨raws, constants, hresolves, rfl⟩ := Pool.isRead_iff.mp h
  exact ⟨Pool.tag_ofRead .., hresolves.reachable, hresolves.typed.imp fun _ _ => trivial, hbacks⟩

/-- A new pool has given out no handles. -/
theorem Issuer.sound_empty (tag : PoolTag) : Issuer.Sound tag ⟨Pool.empty tag, []⟩ :=
  ⟨rfl, .empty tag, (Pool.typed_empty tag).imp fun _ _ => trivial, Pool.backs_nil _⟩

namespace Session

variable {session later : Session} {tag : PoolTag} {issuer : Issuer} {handle : TypedId}

/-- Whether all handles that pools gave out are on constants of them, of the kinds they say. -/
def Sound (session : Session) : Prop :=
  ∀ tag issuer, session.issuer? tag = some issuer → issuer.Sound tag

/-- A handle that the program has is of no other kind in any pool: it is foreign there, or the pool
gave it out. -/
theorem Sound.keeps (h : session.Sound) (hissuer : session.issuer? tag = some issuer)
    (hheld : session.Holds handle) : issuer.pool.Keeps [handle.tag] handle.id := by
  intro constant hconstant
  obtain ⟨other, owner, howner, hmem⟩ := hheld
  have hdenotes := (h other owner howner).backs handle hmem
  have hsame : other = tag := by
    rw [← (h other owner howner).tag_eq, ← (h tag issuer hissuer).tag_eq, ← hdenotes.pool_eq]
    exact (Pool.constant_eq_ok_iff.mp hconstant).1
  rw [hsame, hissuer] at howner
  cases howner
  exact (TypedId.denotesIn_iff_leads.mp hdenotes).keeps constant hconstant

/-- The pools of a sound session are typed. -/
theorem Sound.typed_of_hasPool (h : session.Sound) {pool : Pool} (hpool : session.HasPool pool) :
    pool.TypedFor ConstantTag.SaysKinds := by
  obtain ⟨tag, issuer, hissuer, rfl⟩ := hpool
  exact (h tag issuer hissuer).typed

/-- An operation that is given handles the program has leaves a sound pool. -/
theorem Sound.operated (h : session.Sound) (operation : Pool.Operation)
    (hissuer : session.issuer? tag = some issuer)
    (hgiven : ∀ handle ∈ operation.given, session.Holds handle)
    (hsource : ∀ source ∈ operation.source?, session.HasPool source) {handles : List TypedId}
    (hhandles : (operation.after issuer.pool).Backs handles) :
    Issuer.Sound tag ⟨operation.after issuer.pool, handles ++ issuer.issued⟩
      ∧ Issuer.Follows ⟨operation.after issuer.pool, handles ++ issuer.issued⟩ issuer := by
  have hsound := h tag issuer hissuer
  have hextends := (Pool.changes_after operation issuer.pool).extends
  have hminds : operation.MindsFor ConstantTag.SaysKinds issuer.pool :=
    Pool.Operation.mindsFor_of_given (fun handle hhandle => h.keeps hissuer (hgiven handle hhandle))
      fun source hmem => h.typed_of_hasPool (hsource source hmem)
  refine ⟨⟨hextends.tag_eq.trans hsound.tag_eq, .operate operation hsound.reachable,
    hsound.typed.after hminds, ?_⟩, hextends, List.subset_append_right ..⟩
  exact Pool.backs_append hhandles (hsound.backs.extends hextends)

/-- A step puts a sound pool in the place of an earlier state of it, or where there was none. -/
theorem Step.cases (h : session.Sound) (hstep : Step session later) :
    ∃ tag next, later = session.put tag next ∧ next.Sound tag
      ∧ ∀ issuer, session.issuer? tag = some issuer → next.Follows issuer := by
  have hnone {tag : PoolTag} {next : Issuer} (hfresh : session.issuer? tag = none) :
      ∀ issuer, session.issuer? tag = some issuer → next.Follows issuer := by
    intro issuer hissuer
    rw [hfresh] at hissuer
    cases hissuer
  have hsome {tag : PoolTag} {old next : Issuer} (hold : session.issuer? tag = some old)
      (hfollows : next.Follows old) :
      ∀ issuer, session.issuer? tag = some issuer → next.Follows issuer := by
    intro issuer hissuer
    rw [hold] at hissuer
    cases hissuer
    exact hfollows
  cases hstep with
  | made hfresh => exact ⟨_, _, rfl, Issuer.sound_empty _, hnone hfresh⟩
  | read hfresh hread =>
    exact ⟨_, _, rfl, Issuer.sound_of_isRead hread (Pool.backs_nil _), hnone hfresh⟩
  | parsed hfresh hreads =>
    obtain ⟨hread, hbacks⟩ := ClassFile.gives_read _ _ hreads
    exact ⟨_, _, rfl, Issuer.sound_of_isRead hread hbacks, hnone hfresh⟩
  | found hissuer hfinds =>
    have hsound := h _ _ hissuer
    refine ⟨_, _, rfl, ⟨hsound.tag_eq, hsound.reachable, hsound.typed, ?_⟩,
      hsome hissuer ⟨.refl _, List.subset_append_right ..⟩⟩
    exact Pool.backs_append (hfinds.backs hsound.typed) hsound.backs
  | operated operation hissuer hgiven hsource =>
    obtain ⟨hsound, hfollows⟩ := h.operated operation hissuer hgiven hsource
      ((h _ _ hissuer).typed.denotesIn_of_issues operation)
    exact ⟨_, _, rfl, hsound, hsome hissuer hfollows⟩
  | @copied tag issuer source handle hissuer hsource hheld =>
    -- Copying a handle of some kind changes the pool as the plain operation does.
    have hafter := Pool.apply_copy source issuer.pool handle
    have htyped := h.typed_of_hasPool hsource
    have hbacks : ((Pool.Operation.copy source handle.id).after issuer.pool).Backs
        ((handle.copy source).apply issuer.pool).1.toOption.toList := by
      intro copied hcopied
      rw [Option.mem_toList] at hcopied
      have hanswer := toOption_eq_some_iff.mp hcopied
      rw [← hafter]
      refine (h tag issuer hissuer).typed.denotesIn_of_copy htyped ?_ hanswer
      obtain ⟨other, owner, howner, rfl⟩ := hsource
      exact h.keeps howner hheld
    rw [hafter]
    have hsources : ∀ other ∈ (Pool.Operation.copy source handle.id).source?,
        session.HasPool other := by
      intro other hother
      cases hother
      exact hsource
    obtain ⟨hsound, hfollows⟩ := h.operated (.copy source handle.id) hissuer
      (fun _ hhandle => nomatch hhandle) hsources hbacks
    exact ⟨_, _, rfl, hsound, hsome hissuer hfollows⟩

/-- Putting a sound pool under its tag keeps the session sound. -/
theorem Sound.put (h : session.Sound) (hissuer : issuer.Sound tag) :
    (session.put tag issuer).Sound := by
  intro other found hfound
  by_cases heq : other = tag
  · subst heq
    rw [issuer?_put_self] at hfound
    cases hfound
    exact hissuer
  · rw [issuer?_put_of_ne heq] at hfound
    exact h other found hfound

/-- A step keeps handles sound. -/
theorem Sound.step (h : session.Sound) (hstep : Step session later) : later.Sound := by
  obtain ⟨tag, next, rfl, hnext, -⟩ := hstep.cases h
  exact h.put hnext

/-- After a step each pool is there in the same or in a later state. -/
theorem Sound.follows_step (h : session.Sound) (hstep : Step session later)
    (hissuer : session.issuer? tag = some issuer) :
    ∃ next, later.issuer? tag = some next ∧ next.Follows issuer := by
  obtain ⟨place, next, rfl, -, hfollows⟩ := hstep.cases h
  by_cases heq : tag = place
  · subst heq
    exact ⟨next, issuer?_put_self .., hfollows issuer hissuer⟩
  · refine ⟨issuer, ?_, .refl issuer⟩
    rw [issuer?_put_of_ne heq]
    exact hissuer

/-- So does any number of steps. -/
theorem Sound.steps (h : session.Sound) (hsteps : Relation.ReflTransGen Step session later) :
    later.Sound := by
  induction hsteps with
  | refl => exact h
  | tail _ hstep ih => exact ih.step hstep

/-- After any number of steps each pool is there in a later state. -/
theorem Sound.follows_steps (h : session.Sound)
    (hsteps : Relation.ReflTransGen Step session later)
    (hissuer : session.issuer? tag = some issuer) :
    ∃ next, later.issuer? tag = some next ∧ next.Follows issuer := by
  induction hsteps with
  | refl => exact ⟨issuer, hissuer, .refl issuer⟩
  | tail hsteps hstep ih =>
    obtain ⟨middle, hmiddle, hfollows⟩ := ih
    obtain ⟨next, hnext, hlater⟩ := (h.steps hsteps).follows_step hstep hmiddle
    exact ⟨next, hnext, hlater.trans hfollows⟩

/-- Nothing is wrong where nothing was done. -/
theorem sound_start : start.Sound := fun _ _ hissuer => nomatch hissuer

/-- **Handles that say a kind are sound.** Whatever a program did, of each of its pools it holds:

* Whatever it does next, the pool only grows, and all handles that it gave out, by adding, by
  looking up, by decoding, by copying or in its constants, are on its constants, of the kinds that
  they say.
* References of its constants are on its constants, and following them never leads back.
* A text that it gave a handle out on has a string, or it is kept as units that no string has; so
  this is the only cause for which the string is refused. It is the same for the name of a class. -/
theorem handles_sound (h : session.Reachable) (hissuer : session.issuer? tag = some issuer) :
    (∀ later, Relation.ReflTransGen Step session later →
        ∃ next, later.issuer? tag = some next ∧ next.pool.Extends issuer.pool
          ∧ issuer.issued ⊆ next.issued ∧ ∀ handle ∈ issuer.issued, ∃ constant,
            next.pool.constant handle.id = .ok constant ∧ constant.tag = handle.tag)
      ∧ (∀ id constant, issuer.pool.constant id = .ok constant →
        ∀ reference ∈ constant.references,
          ∃ found, issuer.pool.constant reference = .ok found)
      ∧ (∀ id, ¬ Relation.TransGen issuer.pool.RefersTo id id)
      ∧ (∀ name, .utf8 name ∈ issuer.issued → (∃ text, issuer.pool.text name = .ok text)
        ∨ ∃ units, issuer.pool.constant name.id = .ok (.utf16 units)
          ∧ issuer.pool.text name = .error (.unpairedSurrogates name.id))
      ∧ ∀ owner, .classInfo owner ∈ issuer.issued →
        ∃ name, issuer.pool.constant owner.id = .ok (.classInfo name)
          ∧ ((∃ text, issuer.pool.className owner = .ok text)
            ∨ ∃ units, issuer.pool.constant name.id = .ok (.utf16 units)
              ∧ issuer.pool.className owner = .error (.unpairedSurrogates name.id)) := by
  have hsession : session.Sound := sound_start.steps h
  have hsound := hsession tag issuer hissuer
  refine ⟨fun later hlater => ?_, fun id constant => hsound.typed.exists_reference,
    hsound.reachable.grounded.not_transGen_self, fun name hname => ?_, fun owner howner => ?_⟩
  · obtain ⟨next, hnext, hfollows⟩ := hsession.follows_steps hlater hissuer
    refine ⟨next, hnext, hfollows.pool_extends, hfollows.issued_subset, ?_⟩
    exact hsound.backs.extends hfollows.pool_extends
  · exact (TypedId.denotesIn_iff_leads.mp (hsound.backs _ hname)).text_ok_or_unpaired
  · exact hsound.typed.className_ok_or_unpaired (by decide)
      (TypedId.denotesIn_iff_leads.mp (hsound.backs _ howner))

/-- A pool is read, and the class in it is looked up. Its name is a surrogate without its other
half, which is why it is refused, and the handle stays good when a text is added. -/
theorem handles_sound_of_unpaired :
    let pool := Pool.ofRead ⟨0⟩ [.utf16 [0xd800], .classInfo ⟨⟨⟨0⟩, 0⟩⟩]
    let owner : ClassId := ⟨⟨⟨0⟩, 1⟩⟩
    let session := (start.put ⟨0⟩ ⟨pool, []⟩).put ⟨0⟩ ⟨pool, [.classInfo owner]⟩
    session.Reachable ∧ session.issuer? ⟨0⟩ = some ⟨pool, [.classInfo owner]⟩
      ∧ pool.className owner = .error (.unpairedSurrogates ⟨⟨0⟩, 0⟩)
      ∧ (TypedId.classInfo owner).DenotesIn ((Pool.Operation.addUtf8 "B").after pool) := by
  have hid : (Pool.ofRead ⟨0⟩ [.utf16 [0xd800], .classInfo ⟨⟨⟨0⟩, 0⟩⟩]).idAt 2 = .ok ⟨⟨0⟩, 1⟩ := rfl
  intro pool owner session
  have hread : Step start (start.put ⟨0⟩ ⟨pool, []⟩) :=
    .read rfl (Pool.isRead_iff.mpr ⟨_, _, Pool.resolves_unpaired, rfl⟩)
  have hclass : pool.classAt 2 = .ok owner := by
    rw [Pool.classAt, Pool.idWithTag, hid]
    rfl
  have hfinds : pool.Finds [.classInfo owner] := .classInfo hclass
  have hpool : (start.put ⟨0⟩ ⟨pool, []⟩).issuer? ⟨0⟩ = some ⟨pool, []⟩ := issuer?_put_self ..
  have hfound : Step (start.put ⟨0⟩ ⟨pool, []⟩) session := .found hpool hfinds
  have hreachable : session.Reachable := (Relation.ReflTransGen.single hread).tail hfound
  have hissuer : session.issuer? ⟨0⟩ = some ⟨pool, [.classInfo owner]⟩ := issuer?_put_self ..
  obtain ⟨hlater, -, -, -, hname⟩ := handles_sound hreachable hissuer
  refine ⟨hreachable, hissuer, ?_, ?_⟩
  · obtain ⟨name, hconstant, ⟨text, htext⟩ | ⟨units, -, hrefused⟩⟩ :=
      hname owner (List.mem_singleton_self _)
    · cases htext
    · cases hconstant
      exact hrefused
  · have hstep : Step session _ :=
      .operated (.addUtf8 "B") hissuer (List.forall_mem_nil _) fun _ hsource =>
        absurd hsource (Option.not_mem_none _)
    obtain ⟨next, hnext, -, -, hdenotes⟩ := hlater _ (.single hstep)
    rw [issuer?_put_self] at hnext
    cases hnext
    exact hdenotes _ (List.mem_singleton_self _)

end Session

end ClassFormat
