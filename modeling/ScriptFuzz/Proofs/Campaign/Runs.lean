import Mathlib
import ScriptFuzz.Campaign.Basic
import ScriptFuzz.Campaign.Rehearsal
import ScriptFuzz.Proofs.Campaign.Trials
import ScriptFuzz.Proofs.Code.Declared
import ScriptFuzz.Proofs.Reading.Scripts

/-!
# Campaigns with compiled scripts

A compiled script is ready for a campaign: its mutators are in their first states and nobody holds
them, each template knows its own, and the templates are in the order of their names
(`Source.Program.ready_script`). So a campaign makes exactly the trials that are meant
(`Campaign.Session.run_eq_trials`).
-/

namespace ScriptFuzz

/-! ## Templates under construction -/

/-- A mutator in its first state, with no more states than a campaign can try. -/
def Mutator.Ready (m : Mutator) : Prop :=
  m.IsFirst ∧ ∀ n, m.states = some n → n ≤ Walk.stepBound

theorem Mutator.ready_ofWidth (width : Width) (initial : Nat) : (ofWidth width initial).Ready :=
  ⟨rfl, fun n hn => by cases hn⟩

theorem Mutator.ready_ofStrings (form : StringForm) (seed : Option String) :
    (ofStrings form seed).Ready := by
  have hsize : (Dictionary.start form seed).size = (seed.map Text.utf8).toList.length + 25 :=
    List.length_append
  have hseed : (seed.map Text.utf8).toList.length ≤ 1 := by cases seed <;> simp
  refine ⟨⟨rfl, by omega⟩, ?_⟩
  intro n hn
  obtain rfl : _ = n := Option.some.inj hn
  rw [Walk.stepBound]
  omega

theorem Mutator.ready_ofLengths (width : Nat) (lower upper : UInt64) :
    (ofLengths width lower.toNat upper.toNat).Ready := by
  refine ⟨⟨rfl, rfl, Nat.le_max_right _ _⟩, ?_⟩
  intro n hn
  obtain rfl : max upper.toNat lower.toNat - lower.toNat + 1 = n := Option.some.inj hn
  have := lower.toNat_lt
  have := upper.toNat_lt
  rw [Walk.stepBound]
  omega

/-- A template under construction whose pool is ready, where `size` mutators were there before. -/
structure TemplateBuilder.Ready (size : Nat) (b : TemplateBuilder) : Prop where
  pool : b.pool.Ready
  grows : size ≤ b.pool.states.size
  mem : ∀ id, .mutator id ∈ b.items → id < b.pool.states.size

namespace TemplateBuilder.Ready

variable {size : Nat} {b : TemplateBuilder}

theorem push (h : b.Ready size) {item : Item} (hitem : ∀ id, item ≠ .mutator id) :
    (b.push item).Ready size := by
  refine ⟨h.pool, h.grows, ?_⟩
  intro id hid
  rcases Array.mem_push.1 hid with hid | hid
  · exact h.mem id hid
  · exact absurd hid.symm (hitem id)

theorem pushMutator (h : b.Ready size) {m : Mutator} (hm : m.Ready) :
    (b.pushMutator m).2.Ready size := by
  have hsize : (b.pushMutator m).2.pool.states.size = b.pool.states.size + 1 := Array.size_push m
  refine ⟨⟨h.pool.held, ?_, ?_⟩, ?_, ?_⟩
  · intro m' hm'
    rcases Array.mem_push.1 hm' with hm' | rfl
    · exact h.pool.first m' hm'
    · exact hm.1
  · intro m' hm'
    rcases Array.mem_push.1 hm' with hm' | rfl
    · exact h.pool.bounded m' hm'
    · exact hm.2
  · rw [hsize]
    exact Nat.le_succ_of_le h.grows
  · intro id hid
    rw [hsize]
    -- the new mutator has the number behind those of the others
    rcases Array.mem_push.1 hid with hid | hid
    · exact Nat.lt_succ_of_lt (h.mem id hid)
    · cases hid
      exact Nat.lt_succ_self _

end TemplateBuilder.Ready

namespace Source

open TemplateBuilder

variable {size : Nat} {b : TemplateBuilder} {known : List (String × Template)}

theorem Field.ready_build (h : b.Ready size) (fuzz : Bool) (f : Field) :
    (f.build known fuzz b).Ready size := by
  cases f with
  | scalar w v =>
    rw [build, pushScalar]
    split
    · exact h.pushMutator (Mutator.ready_ofWidth w _)
    · exact h.push (by cases w <;> simp [Width.scalar])
  | string form seed =>
    rw [build, pushString]
    split
    · exact h.pushMutator (Mutator.ready_ofStrings form seed)
    · exact h.push (by simp)
  | array w lower upper =>
    rw [build]
    split
    · exact h.pushMutator (Mutator.ready_ofLengths _ _ _)
    · exact h.push (by simp)
  | reference x =>
    rw [build]
    split
    · exact h.push (by simp [Template.asItem])
    · exact h

theorem Entry.ready_build (h : b.Ready size) (e : Entry) : (e.build known b).Ready size := by
  cases e with
  | field f => exact f.ready_build h false
  | group fs =>
    rw [build]
    induction fs generalizing b with
    | nil => exact h
    | cons f fs ih => exact ih (f.ready_build h true)

theorem Entry.ready_buildAll (h : b.Ready size) (entries : List Entry) :
    (entries.foldl (Entry.build known) b).Ready size := by
  induction entries generalizing b with
  | nil => exact h
  | cons e entries ih => exact ih (e.ready_build h)

/-! ## Compiled scripts -/

/-- What holds of the templates behind declarations. -/
structure Templates.Ready (ts : Templates) : Prop where
  pool : ts.pool.Ready
  mem : ∀ entry ∈ ts.named, ∀ id ∈ entry.2.mutators, id < ts.pool.states.size
  sorted : ts.named.Pairwise fun a b => a.1 < b.1

theorem mem_insertTemplate {x : String} {t : Template} {entry : String × Template} :
    entry ∈ ScriptTree.insertTemplate x t known ↔ entry = (x, t) ∨ entry ∈ known := by
  induction known with
  | nil => simp [ScriptTree.insertTemplate]
  | cons other known ih =>
    rw [ScriptTree.insertTemplate]
    split
    · rw [List.mem_cons]
    · rw [List.mem_cons, List.mem_cons, ih]
      exact or_left_comm

/-- Templates stay in the order of their names. -/
theorem pairwise_insertTemplate {x : String} (t : Template)
    (h : known.Pairwise fun a b => a.1 < b.1) (hx : ∀ entry ∈ known, entry.1 ≠ x) :
    (ScriptTree.insertTemplate x t known).Pairwise fun a b => a.1 < b.1 := by
  induction known with
  | nil => exact List.pairwise_singleton _ _
  | cons other known ih =>
    obtain ⟨hother, hknown⟩ := List.pairwise_cons.1 h
    obtain ⟨hne, hx⟩ := List.forall_mem_cons.1 hx
    rw [ScriptTree.insertTemplate]
    split
    · next hlt =>
      refine List.pairwise_cons.2 ⟨List.forall_mem_cons.2 ⟨hlt, ?_⟩, h⟩
      intro entry hentry
      exact String.lt_trans hlt (hother entry hentry)
    · next hnot =>
      refine List.pairwise_cons.2 ⟨?_, ih hknown hx⟩
      intro entry hentry
      rcases mem_insertTemplate.1 hentry with rfl | hentry
      · exact Std.lt_of_le_of_ne (String.not_lt.1 hnot) hne
      · exact hother entry hentry

theorem Templates.Ready.add {ts : Templates} (h : ts.Ready) {declaration : Declaration}
    (hfresh : ∀ x entries, declaration = .template x entries → ∀ entry ∈ ts.named, entry.1 ≠ x) :
    (ts.add declaration).Ready := by
  cases declaration with
  | function f => exact h
  | template x entries =>
    have hstart : TemplateBuilder.Ready ts.pool.states.size { pool := ts.pool } :=
      ⟨h.pool, Nat.le_refl _, fun id hid => by simp at hid⟩
    have hb : (entries.foldl (Entry.build ts.named) { pool := ts.pool }).Ready _ :=
      Entry.ready_buildAll hstart entries
    refine ⟨hb.pool, ?_, pairwise_insertTemplate _ h.sorted (hfresh x entries rfl)⟩
    intro entry hentry id hid
    rcases mem_insertTemplate.1 hentry with rfl | hentry
    · exact hb.mem id (Array.mem_toList_iff.1 (Template.mem_mutators.1 hid))
    · exact Nat.lt_of_lt_of_le (h.mem entry hentry id hid) hb.grows

theorem Templates.Ready.foldl {d : Declared} (h : d.templates.Ready) (hd : d.Sound) {p : Program}
    (hv : p.ValidFrom d.names) : (p.foldl Declared.add d).templates.Ready := by
  induction p generalizing d with
  | nil => exact h
  | cons declaration p ih =>
    refine ih (h.add ?_) (hd.add hv.1) hv.2
    rintro x entries rfl entry hentry rfl
    -- the name is declared already
    refine hv.1.1 ((hd.templates entry.1).2 (Option.isSome_iff_ne_none.2 ?_))
    intro hnone
    have := List.lookup_eq_none_iff.1 hnone entry hentry
    simp at this

theorem Program.ready_declared {p : Program} (h : p.Valid) : (declared p).templates.Ready := by
  have hstart : Templates.Ready {} :=
    ⟨⟨rfl, fun m hm => by simp at hm, fun m hm => by simp at hm⟩, fun entry hentry => by
      simp at hentry, List.Pairwise.nil⟩
  exact Templates.Ready.foldl (d := {}) hstart Declared.sound_nothing h

/-- The templates of a script that keeps the rules are ready for a campaign. -/
theorem Program.ready_script {p : Program} (h : p.Valid) : p.script.pool.Ready ∧
    (∀ entry ∈ p.script.templates, ∀ id ∈ entry.2.mutators, id < p.script.mutators.size) ∧
    p.script.templates.Pairwise fun a b => a.1 < b.1 := by
  have hready := ready_declared h
  exact ⟨⟨rfl, hready.pool.first, hready.pool.bounded⟩, hready.mem, hready.sorted⟩

end Source

/-! ## Campaigns -/

namespace Campaign.Session

/-- A campaign with a compiled script makes the trials that are meant, one after the other, whatever
comes of them, and nothing else: templates in the order of their names, mutators in the order of the
items, and of each mutator all states up to the limit. Each payload is the serialization of its
template. Afterwards all mutators are in their first states again, and no template is abandoned. -/
theorem run_eq_trials {ω χ δ : Type} [Clock ω] [Target ω] [Listener ω χ] [Channel χ] [Storage δ]
    {source : String} {script : Script} (hc : compile source = .ok script) (plan : Plan)
    (hlimit : ∀ n, plan.settings.maxSteps = some n → 1 ≤ n)
    (hends : plan.settings.maxSteps = none → ∀ entry ∈ script.templates,
      ∀ id ∈ entry.2.mutators, ∀ c, script.pool.state id ≠ .counter c)
    (s : Session ω χ δ) :
    run plan script script.pool s =
        { pool := script.pool
          result := (script.trials plan.settings.maxSteps).foldl
            (fun s trial => attempt plan script trial s) s
          abandoned := #[] } ∧
      (∀ m ∈ script.pool.states, m.IsFirst ∧
        ∀ k, (m.after k).finished ↔ ∃ n, m.states = some n ∧ n ≤ k) ∧
      script.templates.Pairwise (fun a b => a.1 < b.1) ∧
      ∀ entry ∈ script.templates, ∀ id ∈ entry.2.mutators, ∀ k,
        let trial := script.pool.trial entry.1 entry.2 id k
        entry.2.generate trial.pool = .ok trial.payload := by
  obtain ⟨p, hw⟩ := exists_written_of_compile hc
  obtain ⟨hvalid, rfl⟩ := valid_of_compile hw hc
  obtain ⟨hready, hmem, hsorted⟩ := Source.Program.ready_script hvalid
  have htries : ∀ entry ∈ p.script.templates, ∀ id ∈ entry.2.mutators,
      (Walk.tries plan.settings.maxSteps (p.script.pool.state id).states).isSome := by
    intro entry hentry id hid
    -- there is an end, either because of the limit or because the mutator is not a counter
    cases hmax : plan.settings.maxSteps with
    | none =>
      have hnot := hends hmax entry hentry id hid
      cases hm : p.script.pool.state id with
      | counter c => exact absurd hm (hnot c)
      | _ => rfl
    | some n => cases (p.script.pool.state id).states <;> rfl
  refine ⟨?_, ?_, hsorted, ?_⟩
  · exact Walk.ofScript_eq hready (fun entry h => ⟨hmem entry h, htries entry h⟩) hlimit s
  · intro m hm
    have hfirst := hready.first m hm
    exact ⟨hfirst, Mutator.finished_after_iff hfirst⟩
  · intro entry _ id _ k
    have hheld : (p.script.pool.trial entry.1 entry.2 id k).pool.held = [] := hready.held
    exact Template.generate_eq hheld entry.2

/-- The trials of an array of one to three bytes. -/
theorem run_lengths :
    ∃ script,
      compile "template t = [ byte(7), { array<byte>(1-3) } ]; function main() { out(t); }" =
        .ok script ∧
      (script.trials none).map Trial.payload =
        [[7, 0x41], [7, 0x41, 0x41], [7, 0x41, 0x41, 0x41]] ∧
      ∀ (oracle : Oracle) (s : Session Rehearsal MemoryChannel Folder),
        run { settings := { maxSteps := none }, oracle } script script.pool s =
          { pool := script.pool
            result := (script.trials none).foldl
              (fun s trial => attempt { settings := { maxSteps := none }, oracle } script trial s) s
            abandoned := #[] } := by
  let p : Source.Program :=
    [.template "t" [.field (.scalar .one (some 7)), .group [.array .one 1 (some 3)]],
      .function ⟨"main", [], [.evaluate (.call "out" [.name "t"])]⟩]
  have hc : compile "template t = [ byte(7), { array<byte>(1-3) } ]; function main() { out(t); }" =
      .ok p.script := by
    cbv
  have hpayloads : (p.script.trials none).map Trial.payload =
      [[7, 0x41], [7, 0x41, 0x41], [7, 0x41, 0x41, 0x41]] := rfl
  have htemplates : p.script.templates = [("t", { items := [.byte 7, .mutator 0] })] := rfl
  refine ⟨p.script, hc, hpayloads, ?_⟩
  intro oracle s
  refine (run_eq_trials hc { settings := { maxSteps := none }, oracle } (by simp) ?_ s).1
  -- the only mutator is that of the array
  rw [htemplates]
  rintro - entry hentry id hid c
  obtain rfl := List.mem_singleton.1 hentry
  obtain rfl : id = 0 := List.mem_singleton.1 hid
  intro h
  cases h

end Campaign.Session

end ScriptFuzz
