import QueueBench.Command.Program
import QueueBench.Proofs.OsString

/-! # The bare command

Behind the program's own name the options read as they do behind `run`. The version option alone
is known in one of these places only, and it ends the program; a command is named by the first
argument or not at all. -/
namespace QueueBench

theorem Except.toOption_bind {ε α β : Type} (step : Except ε α) (rest : α → Except ε β) :
    (step >>= rest).toOption = step.toOption.bind fun a => (rest a).toOption := by
  cases step <;> rfl

theorem Except.toOption_map {ε α β : Type} (f : α → β) (r : Except ε α) :
    (r.map f).toOption = r.toOption.map f := by
  cases r <;> rfl

namespace CommandOption

theorem ofLongName?_run (name : OsString) :
    ofLongName? .run name = (ofLongName? .program name).filter (· ≠ version) := by
  unfold ofLongName?
  split <;> rfl

theorem ofLetter?_run (letter : UInt8) :
    ofLetter? .run letter = (ofLetter? .program letter).filter (· ≠ version) := by
  unfold ofLetter?
  split <;> rfl

end CommandOption

namespace Progress

theorem toOption_option_version (p : Progress) (value : Option OsString) :
    (p.option .version value).toOption = none := by
  cases value with
  | some value => rfl
  | none =>
    rw [option, Except.toOption_bind]
    cases p.settle <;> rfl

theorem toOption_longOption (p : Progress) (name : OsString) (value : Option OsString) :
    (p.longOption .run name value).toOption = (p.longOption .program name value).toOption := by
  rw [longOption, longOption, CommandOption.ofLongName?_run]
  cases CommandOption.ofLongName? .program name with
  | none => rfl
  | some o =>
    cases o with
    | version => exact (p.toOption_option_version value).symm
    | setting | flag | help => rfl

theorem toOption_shortOptions (p : Progress) (letters : List UInt8) :
    (p.shortOptions .run letters).toOption = (p.shortOptions .program letters).toOption := by
  induction letters generalizing p with
  | nil => rfl
  | cons letter rest ih =>
    have hnext (o : CommandOption) :
        (p.option o none >>= fun p => p.shortOptions .run rest).toOption =
          (p.option o none >>= fun p => p.shortOptions .program rest).toOption := by
      simp only [Except.toOption_bind, ih]
    rw [shortOptions, shortOptions, CommandOption.ofLetter?_run]
    cases CommandOption.ofLetter? .program letter with
    | none => rfl
    | some o =>
      cases o with
      | setting s => rfl
      | flag f => exact hnext (.flag f)
      | help => exact hnext .help
      | version =>
        change none = (p.option .version none >>= fun p => p.shortOptions .program rest).toOption
        rw [Except.toOption_bind, toOption_option_version]
        rfl

theorem toOption_read (p : Progress) (args : List OsString) :
    (p.read .run args).toOption = (p.read .program args).toOption := by
  -- A stray argument ends the reading at both levels, with different complaints.
  induction args generalizing p with
  | nil => rfl
  | cons word rest ih =>
    unfold read
    cases Word.ofBytes word.bytes with
    | endOfOptions => cases rest <;> rfl
    | long name value =>
      simp only [Except.toOption_bind, toOption_longOption, ih]
    | short letters =>
      simp only [Except.toOption_bind, toOption_shortOptions, ih]
    | plain =>
      rcases p.pending with _ | ⟨s, _ | value⟩
      · rfl
      · exact ih _
      · rfl

/-- What is neither an option nor the value of one is refused, also the name of a command. -/
theorem read_plain {p : Progress} {word : OsString} (level : CommandLevel) (rest : List OsString)
    (hw : Word.ofBytes word.bytes = .plain) (hp : ∀ s, p.pending ≠ some (s, none)) :
    p.read level (word :: rest) = .error (p.stray level false word) := by
  unfold read
  rw [hw]
  rcases h : p.pending with _ | ⟨s, _ | value⟩
  · rfl
  · exact (hp s h).elim
  · rfl

theorem read_run_of_anyOption {p : Progress} (rest : List OsString) (ho : p.anyOption)
    (hp : ∀ s, p.pending ≠ some (s, none)) :
    p.read .program (↑"run" :: rest) = .error .conflict := by
  have hw : Word.ofBytes (OsString.ofText "run").bytes = .plain := by decide
  rw [read_plain .program rest hw hp, stray, if_pos ho]

end Progress

namespace Arguments

variable {args : List OsString}

/-- A command is named. Only the first argument can do so, as a command conflicts with options in
front of it. -/
def NamesCommand (args : List OsString) : Prop :=
  args.head? = some ↑"run" ∨ args.head? = some ↑"help"

instance : Decidable (NamesCommand args) := inferInstanceAs (Decidable (_ ∨ _))

theorem parse_of_not_namesCommand (h : ¬ NamesCommand args) :
    parse args = (Progress.start.read .program args).map Given.arguments := by
  rw [NamesCommand, not_or] at h
  rw [parse, if_neg h.1, if_neg h.2]

theorem parse_run (args : List OsString) :
    parse (↑"run" :: args) = (Progress.start.read .run args).map Given.arguments :=
  if_pos rfl

theorem parse_run_of_namesCommand (h : NamesCommand args) :
    parse (↑"run" :: args) = .error .unknownArgument := by
  cases args with
  | nil => exact h.elim nofun nofun
  | cons name rest =>
    have hw : Word.ofBytes name.bytes = .plain := by
      rcases h with h | h <;> obtain rfl := Option.some.inj h <;> decide
    have hp (s : Setting) : Progress.start.pending ≠ some (s, none) := nofun
    rw [parse_run, Progress.read_plain .run rest hw hp]
    rfl

theorem parse_run_iff (args : List OsString) (a : Arguments) :
    ¬ NamesCommand args ∧ parse args = .ok a ↔ parse (↑"run" :: args) = .ok a := by
  by_cases h : NamesCommand args
  · rw [parse_run_of_namesCommand h]
    exact iff_of_false (fun hn => hn.1 h) nofun
  · have hsame : (parse args).toOption = (parse (↑"run" :: args)).toOption := by
      rw [parse_of_not_namesCommand h, parse_run, Except.toOption_map, ← Progress.toOption_read,
        ← Except.toOption_map]
    rw [← Except.toOption_eq_some_iff, hsame, Except.toOption_eq_some_iff, and_iff_right h]

/-- The bare command gives the arguments that `run` gives, on the same lines, and the program then
does the same on every folder and with every renderer. -/
theorem bare_command_is_run (args : List OsString) :
    (∀ a, ¬ NamesCommand args ∧ parse args = .ok a ↔ parse (↑"run" :: args) = .ok a) ∧
      (∀ a, parse (↑"run" :: args) = .ok a →
        ∀ {m : Type → Type} [Monad m] (t : FileTree) (render : Renderer m),
          program t render args = program t render (↑"run" :: args)) := by
  refine ⟨parse_run_iff args, ?_⟩
  intro a hrun m _ t render
  have hbare := ((parse_run_iff args a).mpr hrun).2
  rw [program, program, hbare, hrun]

/-- Two letters in one argument, the second with a value that is not UTF-8. -/
theorem bare_command_is_run_clustered :
    let args : List OsString := [⟨[0x2D, 0x76, 0x72, 0xFF]⟩, "--thread-axis", "p+c", "--"]
    let render : Renderer Id := fun _ _ => .ok ()
    parse args = .ok ⟨⟨[0xFF]⟩, .total, false, false, true⟩ ∧
      program .empty render args = program .empty render (↑"run" :: args) := by
  have hrun : parse [↑"run", ⟨[0x2D, 0x76, 0x72, 0xFF]⟩, ↑"--thread-axis", ↑"p+c", ↑"--"] =
      .ok ⟨⟨[0xFF]⟩, .total, false, false, true⟩ := by rfl
  have h := bare_command_is_run [⟨[0x2D, 0x76, 0x72, 0xFF]⟩, "--thread-axis", "p+c", "--"]
  exact ⟨((h.1 _).mpr hrun).2, h.2 _ hrun .empty _⟩

end Arguments

end QueueBench
