import PortableImage.Portable.Ledger
import Mathlib.Logic.Relation
/-!
# Sound ledgers

A ledger is sound if it remembers nothing but what the program says, and every token stands in the
partition of the module it names.  The empty ledger is, and every question keeps it so: with a sound
ledger the answer is that of the program itself, and the ledger can only differ in which entities
the tokens are held by.
-/

namespace PortableImage

open Relation (ReflTransGen)

variable {program : Program} {bubble : Bubble} {ledger : Ledger} {entity : Entity}
  {origin : ModuleIndex} {token : PortableToken}

/-- What a step keeps true, any number of steps keeps true. -/
theorem kept_of_steps {τ : Type} {step : τ → τ → Prop} {before after : τ} (kept : τ → Prop)
    (h : ReflTransGen step before after) (hstep : ∀ a b, step a b → kept a → kept b)
    (hbefore : kept before) : kept after := by
  induction h with
  | refl => exact hbefore
  | tail _ hlast ih => exact hstep _ _ hlast ih

/-- The program answers alike from the referring module and from the module of the row. -/
theorem Program.portableToken_home (program : Program) (bubble : Bubble) (entity : Entity)
    (origin : ModuleIndex) :
    program.portableToken bubble entity (bubble.home entity origin) =
      program.portableToken bubble entity origin := by
  unfold portableToken Bubble.home
  by_cases hinside : bubble.contains entity
  · rw [if_pos hinside, if_pos hinside]
  · rw [if_neg hinside, if_neg hinside, if_neg hinside]

theorem Program.module_of_portable {module : ModuleIndex} {row : Token}
    (h : Program.portable module row = .ok token) : token.module = module := by
  unfold Program.portable PortableToken.ofToken? at h
  cases htable : row.table? with
  | none =>
    rw [htable] at h
    cases h
  | some table =>
    rw [htable] at h
    cases h
    rfl

/-- A token names the module in which its entity has its row. -/
theorem Program.module_of_portableToken
    (h : program.portableToken bubble entity origin = .ok token) :
    token.module = bubble.home entity origin := by
  unfold portableToken at h
  unfold Bubble.home
  split at h
  · rename_i hinside
    rw [if_pos hinside]
    split at h
    · exact module_of_portable h
    · cases h
  · rename_i houtside
    rw [if_neg houtside]
    split at h
    · exact module_of_portable h
    · cases h

/-- A registered entity of the bubble has a token. -/
theorem Program.exists_portableToken {kind : DefinitionKind} (hinside : bubble.contains entity)
    (hkind : entity.kind? = some kind) (hregistered : program.contains entity)
    (origin : ModuleIndex) : ∃ token, program.portableToken bubble entity origin = .ok token := by
  obtain ⟨table, htable, _⟩ := Option.bind_eq_some_iff.mp hkind
  have htoken : PortableToken.ofToken? entity.module entity.token =
      some ⟨entity.module, .ofTable table, entity.token.row⟩ := by
    rw [PortableToken.ofToken?, htable]
    rfl
  exact ⟨_, by rw [portableToken, if_pos hinside, if_pos hregistered, portable, htoken]⟩

namespace Ledger

/-- Every token stands in the partition of the module it names. -/
def Filed (ledger : Ledger) : Prop :=
  ∀ module token entity, (ledger.partition module).entities.find? token = some entity →
    token.module = module

structure Sound (program : Program) (bubble : Bubble) (ledger : Ledger) : Prop where
  token : ∀ home entity token, ledger.token? home entity = some token →
    program.portableToken bubble entity home = .ok token
  held : ∀ home entity token, ledger.token? home entity = some token →
    (ledger.holder? token).isSome
  filed : ∀ module token entity, (ledger.partition module).entities.find? token = some entity →
    token.module = module

theorem sound_empty (program : Program) (bubble : Bubble) : Sound program bubble {} where
  token _ _ _ h := by cases h
  held _ _ _ h := by cases h
  filed _ _ _ h := by cases h

theorem partition_record (ledger : Ledger) (home module : ModuleIndex) (entity : Entity)
    (token : PortableToken) :
    (ledger.record home entity token).partition module =
      if module = home then (ledger.partition home).record entity token
      else ledger.partition module := by
  rw [partition, record, Bindings.find?_put]
  split
  · rfl
  · rfl

theorem token?_record (ledger : Ledger) (home home' : ModuleIndex) (entity entity' : Entity)
    (token : PortableToken) :
    (ledger.record home entity token).token? home' entity' =
      if home' = home ∧ entity' = entity then some ((ledger.token? home entity).getD token)
      else ledger.token? home' entity' := by
  rw [token?, partition_record]
  by_cases hhome : home' = home
  · subst hhome
    rw [if_pos rfl]
    simp only [true_and]
    exact Bindings.find?_putNew ..
  · rw [if_neg hhome, if_neg fun h => hhome h.1, token?]

/-- A token is recorded where it is looked up. -/
theorem holder?_record (ledger : Ledger) {home : ModuleIndex} (entity : Entity)
    {token : PortableToken} (hhome : token.module = home) (other : PortableToken) :
    (ledger.record home entity token).holder? other =
      if other = token then some ((ledger.holder? token).getD entity) else ledger.holder? other := by
  subst hhome
  rw [holder?, partition_record]
  by_cases hmodule : other.module = token.module
  · rw [if_pos hmodule, holder?, holder?, hmodule]
    exact Bindings.find?_putNew ..
  · rw [if_neg hmodule, if_neg fun h => hmodule (congrArg _ h), holder?]

theorem token?_of_record {home home' : ModuleIndex} {entity' : Entity} {given : PortableToken}
    (h : (ledger.record home entity token).token? home' entity' = some given) :
    ledger.token? home' entity' = some given ∨
      (home' = home ∧ entity' = entity) ∧ given = token := by
  rw [token?_record] at h
  split at h
  · rename_i hkey
    cases hold : ledger.token? home entity with
    | none =>
      rw [hold] at h
      exact .inr ⟨hkey, (Option.some.inj h).symm⟩
    | some old =>
      obtain ⟨rfl, rfl⟩ := hkey
      rw [hold] at h
      exact .inl (hold.trans h)
  · exact .inl h

theorem Filed.record (h : ledger.Filed) {home : ModuleIndex} (hhome : token.module = home)
    (entity : Entity) : (ledger.record home entity token).Filed := by
  intro module other holder hfind
  rw [partition_record] at hfind
  split at hfind
  · rename_i hmodule
    rw [Partition.record, Bindings.find?_putNew] at hfind
    split at hfind
    · rename_i hother
      rw [hother, hhome, hmodule]
    · exact hmodule ▸ h _ _ _ hfind
  · exact h _ _ _ hfind

theorem Sound.record (h : Sound program bubble ledger)
    (htoken : program.portableToken bubble entity origin = .ok token) :
    Sound program bubble (ledger.record (bubble.home entity origin) entity token) where
  token home other given hfind := by
    rcases token?_of_record hfind with hold | ⟨⟨rfl, rfl⟩, rfl⟩
    · exact h.token home other given hold
    · rw [program.portableToken_home, htoken]
  held home other given hfind := by
    rw [holder?_record ledger entity (Program.module_of_portableToken htoken)]
    by_cases hgiven : given = token
    · rw [if_pos hgiven]
      rfl
    · rw [if_neg hgiven]
      rcases token?_of_record hfind with hold | ⟨_, hsame⟩
      · exact h.held home other given hold
      · exact absurd hsame hgiven
  filed := Filed.record h.filed (Program.module_of_portableToken htoken) entity

/-- A sound ledger answers what the program says, whatever it remembers. -/
theorem Sound.issue_fst (h : Sound program bubble ledger) (entity : Entity)
    (origin : ModuleIndex) :
    (issue program bubble entity origin ledger).1 =
      program.portableToken bubble entity origin := by
  unfold issue
  cases hfind : ledger.token? (bubble.home entity origin) entity with
  | some token =>
    have htoken := h.token _ _ _ hfind
    rw [program.portableToken_home] at htoken
    simp only [hfind, htoken]
  | none =>
    cases htoken : program.portableToken bubble entity origin with
    | ok token => simp only [hfind]
    | error fault => simp only [hfind]

/-- If there is no answer, it is because the program has none. -/
theorem portableToken_of_issue {fault : Fault}
    (h : (issue program bubble entity origin ledger).1 = .error fault) :
    program.portableToken bubble entity origin = .error fault := by
  unfold issue at h
  cases hfind : ledger.token? (bubble.home entity origin) entity with
  | some token =>
    simp only [hfind] at h
    cases h
  | none =>
    cases htoken : program.portableToken bubble entity origin with
    | ok token =>
      simp only [hfind, htoken] at h
      cases h
    | error other =>
      simp only [hfind, htoken] at h
      rw [Except.error.inj h]

/-- A question leaves the ledger as it is, or has the answer recorded. -/
theorem issue_snd (program : Program) (bubble : Bubble) (entity : Entity) (origin : ModuleIndex)
    (ledger : Ledger) :
    ((issue program bubble entity origin ledger).2 = ledger ∧
      ((∃ token, ledger.token? (bubble.home entity origin) entity = some token) ∨
        ∃ fault, program.portableToken bubble entity origin = .error fault)) ∨
    ∃ token, program.portableToken bubble entity origin = .ok token ∧
      (issue program bubble entity origin ledger).2 =
        ledger.record (bubble.home entity origin) entity token := by
  unfold issue
  cases hfind : ledger.token? (bubble.home entity origin) entity with
  | some token => exact .inl ⟨by simp only [hfind], .inl ⟨token, rfl⟩⟩
  | none =>
    cases htoken : program.portableToken bubble entity origin with
    | ok token => exact .inr ⟨token, rfl, by simp only [hfind]⟩
    | error fault => exact .inl ⟨by simp only [hfind], .inr ⟨fault, rfl⟩⟩

theorem Sound.issue (h : Sound program bubble ledger) (entity : Entity) (origin : ModuleIndex) :
    Sound program bubble (issue program bubble entity origin ledger).2 := by
  rcases issue_snd program bubble entity origin ledger with ⟨hsame, _⟩ | ⟨token, htoken, hrecord⟩
  · rwa [hsame]
  · rw [hrecord]
    exact h.record htoken

/-- A ledger changes by questions that are put to it, and by nothing else. -/
inductive Step (program : Program) (bubble : Bubble) : Ledger → Ledger → Prop
  | issue (ledger : Ledger) (entity : Entity) (origin : ModuleIndex) :
      Step program bubble ledger (issue program bubble entity origin ledger).2

theorem Sound.step {later : Ledger} (h : Sound program bubble ledger)
    (hstep : Step program bubble ledger later) : Sound program bubble later := by
  cases hstep with
  | issue entity origin => exact h.issue entity origin

theorem Sound.steps {later : Ledger} (h : Sound program bubble ledger)
    (hsteps : ReflTransGen (Step program bubble) ledger later) : Sound program bubble later :=
  kept_of_steps _ hsteps (fun _ _ hstep hsound => hsound.step hstep) h

end Ledger

end PortableImage
