import Stencil.Lowering.Component
import Stencil.Proofs.Scanning

/-!
# The code for the runtime is balanced

Every construct of the runtime is a fixed pattern around the parts that it is given. Each pattern
closes the brackets that it opens, so it is balanced when its parts are; texts and keys are put
into literals and may be anything. The one part that is cut open is a call that gets one more
argument: its last character is a closing bracket, and the argument goes before that.

## Main results

* `balanced_element`, `balanced_loop`, `balanced_chain`, `balanced_switch`, `balanced_template`,
  `balanced_call`: **the patterns are balanced if their parts are**.
-/

namespace Stencil.Runtime

open Host

variable {rt : Runtime} {code body result : String}

/-! ### Functions and maps -/

theorem balanced_closure (hresult : Balanced result) (hbody : Balanced body) :
    Balanced (closure result body) := by
  have hopen : Reads ("func() " ++ result ++ " \x7b") [] ['\x7d'] :=
    Reads.append (Reads.append rfl hresult) rfl
  exact Reads.append (hopen.append (hbody.reads _)) rfl

theorem balanced_selfEvaluating (hresult : Balanced result) (hbody : Balanced body) :
    Balanced (selfEvaluating result body) :=
  Balanced.append (balanced_closure hresult hbody) rfl

/-- The entries of a map are balanced if its values are. -/
theorem balanced_entries {d : Dict} (h : ∀ entry ∈ d.entries, Balanced entry.2) :
    Balanced (entries d) := by
  refine balanced_join fun piece hpiece => ?_
  obtain ⟨entry, hentry, rfl⟩ := List.mem_map.mp hpiece
  have hkey : Balanced (Host.quote entry.1 ++ ": ") := Balanced.append (balanced_quote entry.1) rfl
  exact Balanced.append (hkey.append (h entry hentry)) rfl

/-- Quoted entries are balanced, whatever their texts are. -/
theorem balanced_quotedEntries (d : Dict) : Balanced (quotedEntries d) := by
  refine balanced_join fun piece hpiece => ?_
  obtain ⟨entry, -, rfl⟩ := List.mem_map.mp hpiece
  have hkey : Balanced (Host.quote entry.1 ++ ": ") := Balanced.append (balanced_quote entry.1) rfl
  exact Balanced.append (hkey.append (balanced_quote entry.2)) rfl

/-! ### Control flow -/

theorem balanced_loopName (n : Nat) : Balanced (loopName n) := by
  have hdigits : ∀ c ∈ (toString n).toList, isPlain c = true := by
    intro c hc
    have hdigit : c.isDigit = true := by
      refine Nat.isDigit_of_mem_toDigits (b := 10) (n := n) (by decide) (by decide) ?_
      simpa [toString, Nat.toList_repr] using hc
    exact isPlain_of_name (.inl (by simp [Char.isAlphanum, hdigit]))
  exact Balanced.append rfl (balanced_of_isPlain hdigits)

theorem balanced_loop {clause element name : String} (hclause : Balanced clause)
    (helement : Balanced element) (hname : Balanced name) :
    Balanced (loop clause element name) := by
  have hvar : Balanced ("var " ++ name ++ " " ++ listType ++ "; for " ++ clause) :=
    Balanced.append (Balanced.append (Balanced.append (Balanced.append
      (Balanced.append rfl hname) rfl) rfl) rfl) hclause
  have hturn : Reads ("var " ++ name ++ " " ++ listType ++ "; for " ++ clause ++ " \x7b " ++ name ++
      " = append(" ++ name ++ ", " ++ element) [] [')', '\x7d'] :=
    Reads.append (Reads.append (Reads.append (Reads.append (Reads.append
      (Reads.append hvar rfl) (hname.reads _)) rfl) (hname.reads _)) rfl) (helement.reads _)
  exact balanced_selfEvaluating rfl (Reads.append (Reads.append hturn rfl) hname)

theorem balanced_ifArm {condition : String} (hcondition : Balanced condition)
    (hcode : Balanced code) : Balanced (ifArm condition code) := by
  have hopen : Reads ("if " ++ condition ++ " \x7b\n\treturn ") [] ['\x7d'] :=
    Reads.append (Reads.append rfl hcondition) rfl
  exact Reads.append (hopen.append (hcode.reads _)) rfl

theorem balanced_elseIfArm {condition : String} (hcondition : Balanced condition)
    (hcode : Balanced code) : Balanced (elseIfArm condition code) := by
  have hopen : Reads (" else if " ++ condition ++ " \x7b\n\treturn ") [] ['\x7d'] :=
    Reads.append (Reads.append rfl hcondition) rfl
  exact Reads.append (hopen.append (hcode.reads _)) rfl

theorem balanced_elseArm (hcode : Balanced code) : Balanced (elseArm code) :=
  Reads.append (Reads.append rfl (hcode.reads ['\x7d'])) rfl

/-- A chain of alternatives is balanced if its arms are. -/
theorem balanced_chain {arms : String} (harms : Balanced arms) : Balanced (chain arms) :=
  balanced_selfEvaluating rfl (Balanced.append (Balanced.append rfl harms) rfl)

theorem balanced_caseArm {value : String} (hvalue : Balanced value) (hcode : Balanced code) :
    Balanced (caseArm value code) :=
  Balanced.append (Balanced.append (Balanced.append (Balanced.append rfl hvalue) rfl) hcode) rfl

theorem balanced_defaultArm (hcode : Balanced code) : Balanced (defaultArm code) :=
  Balanced.append (Balanced.append rfl hcode) rfl

/-- A switch is balanced if its value and its arms are. -/
theorem balanced_switch {target arms : String} (htarget : Balanced target)
    (harms : Balanced arms) : Balanced (switch target arms) := by
  have hopen : Reads ("\n\tswitch " ++ target ++ " \x7b\n") [] ['\x7d'] :=
    Reads.append (Reads.append rfl htarget) rfl
  exact balanced_selfEvaluating rfl (Reads.append (hopen.append (harms.reads _)) rfl)

/-! ### Components -/

theorem balanced_slot (name : String) : Balanced (slot name) :=
  Reads.append (Reads.append rfl ((balanced_quote name).reads [']'])) rfl

/-- A template is balanced if its preamble and its code are. -/
theorem balanced_template {preamble : String} (hpreamble : Balanced preamble)
    (hcode : Balanced code) : Balanced (template preamble code) := by
  have hopen : Reads ("func(values ..." ++ anyType ++ ") " ++ listType ++ " \x7b\n" ++ preamble ++
      "\nreturn " ++ listType ++ "\x7b") [] ['\x7d', '\x7d'] :=
    Reads.append (Reads.append (Reads.append (Reads.append rfl
      (hpreamble.reads ['\x7d'])) rfl) rfl) rfl
  exact Reads.append (hopen.append (hcode.reads _)) rfl

/-! ### Code that names the package -/

section Package

variable (hname : IsName rt.package)
include hname

theorem balanced_package : Balanced rt.package :=
  balanced_of_isPlain fun c hc => isPlain_of_name (hname.2 c hc)

theorem balanced_handlers {d : Dict} (h : ∀ entry ∈ d.entries, Balanced entry.2) :
    Balanced (rt.handlers d) := by
  have hpackage := balanced_package hname
  rw [handlers]
  split
  · exact balanced_empty
  · have hentries : Balanced (String.join (d.entries.map fun entry =>
        Host.quote entry.1 ++ ": func(e " ++ rt.package ++ ".Event) \x7b" ++ entry.2 ++
          "\x7d,")) := by
      refine balanced_join fun piece hpiece => ?_
      obtain ⟨entry, hentry, rfl⟩ := List.mem_map.mp hpiece
      have hopen : Reads (Host.quote entry.1 ++ ": func(e " ++ rt.package ++ ".Event) \x7b") []
          ['\x7d'] :=
        Reads.append (Reads.append (Reads.append (balanced_quote entry.1) rfl)
          (hpackage.reads [')'])) rfl
      exact Reads.append (hopen.append ((h entry hentry).reads _)) rfl
    have hopen : Reads ("Handlers: map[string]" ++ rt.package ++ ".Handler\x7b") [] ['\x7d'] :=
      Reads.append (Reads.append rfl hpackage) rfl
    exact Reads.append (hopen.append (hentries.reads _)) rfl

theorem balanced_attributes (attrs : Dict) {binds : Dict}
    (h : ∀ entry ∈ binds.entries, Balanced entry.2) : Balanced (rt.attributes attrs binds) := by
  have htype : Balanced (rt.package ++ ".Map") := Balanced.append (balanced_package hname) rfl
  rw [attributes]
  split
  · exact balanced_empty
  · have hopen : Reads (" return " ++ (rt.package ++ ".Map") ++ "\x7b") [] ['\x7d'] :=
      Reads.append (Reads.append rfl htype) rfl
    have hbody : Balanced (" return " ++ (rt.package ++ ".Map") ++ "\x7b" ++ quotedEntries attrs ++
        entries binds ++ "\x7d ") :=
      Reads.append ((hopen.append ((balanced_quotedEntries attrs).reads _)).append
        ((balanced_entries h).reads _)) rfl
    exact Balanced.append (Balanced.append rfl (balanced_closure htype hbody)) rfl

theorem balanced_rawHtml {expr? : Option String} (h : ∀ expr ∈ expr?, Balanced expr) :
    Balanced (rt.rawHtml expr?) := by
  cases expr? with
  | none => exact balanced_empty
  | some expr =>
      have hopen : Reads ("HTML: " ++ rt.package ++ ".HTMLDirective\x7bRender: ") [] ['\x7d'] :=
        Reads.append (Reads.append rfl (balanced_package hname)) rfl
      have hbody : Balanced (" return " ++ expr ++ " ") :=
        Balanced.append (Balanced.append rfl (h expr rfl)) rfl
      have hrender : Balanced (closure "string" (" return " ++ expr ++ " ")) :=
        balanced_closure rfl hbody
      exact Reads.append (hopen.append (hrender.reads _)) rfl

omit hname in
theorem balanced_reference (name? : Option String) : Balanced (reference name?) := by
  cases name? with
  | none => exact balanced_empty
  | some name => exact Balanced.append (Balanced.append rfl (balanced_quote name)) rfl

/-- **The call that builds an element is balanced** if the code in its attributes and the code of
its children are. -/
theorem balanced_element {d : Descriptor} {children : String}
    (hhandlers : ∀ entry ∈ d.handlers.entries, Balanced entry.2)
    (hbinds : ∀ entry ∈ d.binds.entries, Balanced entry.2)
    (hhtml : ∀ expr ∈ d.rawHtml, Balanced expr) (hchildren : Balanced children) :
    Balanced (rt.element d children) := by
  have hpackage := balanced_package hname
  have hpointer : Balanced (pointer d.isPointer) := by
    cases d.isPointer <;> rfl
  have hopen : Reads ("&" ++ rt.package ++ ".E\x7bTag:" ++ Host.quote d.tag ++ ", ") [] ['\x7d'] :=
    Reads.append (Reads.append (Reads.append (Reads.append rfl hpackage) rfl)
      ((balanced_quote d.tag).reads ['\x7d'])) rfl
  have hfields : Reads ("&" ++ rt.package ++ ".E\x7bTag:" ++ Host.quote d.tag ++ ", " ++
      rt.handlers d.handlers ++ rt.attributes d.attrs d.binds ++ rt.rawHtml d.rawHtml ++
      reference d.reference ++ pointer d.isPointer) [] ['\x7d'] :=
    ((((hopen.append ((balanced_handlers hname hhandlers).reads _)).append
      ((balanced_attributes hname d.attrs hbinds).reads _)).append
      ((balanced_rawHtml hname hhtml).reads _)).append
      ((balanced_reference d.reference).reads _)).append (hpointer.reads _)
  have hbody : Balanced (rt.elementBody d) := Reads.append hfields rfl
  have hcall : Reads (rt.package ++ ".NE(") [] [')'] := Reads.append hpackage rfl
  exact Reads.append ((hcall.append (hbody.reads _)).append (hchildren.reads _)) rfl

theorem balanced_body : Balanced rt.body := by
  have hpackage := balanced_package hname
  exact Reads.append (Reads.append (Reads.append hpackage rfl) (hpackage.reads [')'])) rfl

/-- The function around an element is balanced if the element is. -/
theorem balanced_elementFunction (hcode : Balanced code) : Balanced (rt.elementFunction code) := by
  have hopen : Reads ("func() *" ++ rt.package ++ ".E \x7breturn ") [] ['\x7d'] :=
    Reads.append (Reads.append rfl (balanced_package hname)) rfl
  exact Reads.append (hopen.append (hcode.reads _)) rfl

theorem balanced_configurationParts {slots templates : Dict} (attrs : Dict) (hbody : Balanced body)
    (hslots : ∀ entry ∈ slots.entries, Balanced entry.2)
    (htemplates : ∀ entry ∈ templates.entries, Balanced entry.2) :
    Balanced (rt.configurationParts body slots templates attrs) := by
  have hpackage := balanced_package hname
  have hoptional : ∀ {p : Prop} [Decidable p] {part : String}, Balanced part →
      Balanced (if p then "" else part) := by
    intro p _ part hpart
    split
    · exact balanced_empty
    · exact hpart
  refine Balanced.append (Balanced.append (Balanced.append (hoptional ?_) (hoptional ?_))
    (hoptional ?_)) (hoptional ?_)
  · exact Reads.append (Reads.append rfl (hbody.reads ['\x7d'])) rfl
  · exact Reads.append (Reads.append rfl ((balanced_entries hslots).reads ['\x7d'])) rfl
  · have hopen : Reads ("Templates: map[string]" ++ rt.package ++ ".Template\x7b") [] ['\x7d'] :=
      Reads.append (Reads.append rfl hpackage) rfl
    exact Reads.append (hopen.append ((balanced_entries htemplates).reads _)) rfl
  · exact Reads.append (Reads.append rfl ((balanced_quotedEntries attrs).reads ['\x7d'])) rfl

/-- The configuration of a component is balanced if its parts are, and begins with the name of
the package. -/
theorem balanced_configuration {slots templates attrs : Dict} {argument : String}
    (h : rt.configuration body slots templates attrs = some argument) (hbody : Balanced body)
    (hslots : ∀ entry ∈ slots.entries, Balanced entry.2)
    (htemplates : ∀ entry ∈ templates.entries, Balanced entry.2) :
    Balanced argument ∧ ∃ c ∈ argument.toList.head?, isPlain c = true := by
  have hparts := balanced_configurationParts hname attrs hbody hslots htemplates
  have hargument : rt.package ++ ".External\x7b" ++
      rt.configurationParts body slots templates attrs ++ "\x7d" = argument := by
    rw [configuration] at h
    split at h
    · cases h
    · exact Option.some.inj h
  have hopen : Reads (rt.package ++ ".External\x7b") [] ['\x7d'] :=
    Reads.append (balanced_package hname) rfl
  rw [← hargument]
  refine ⟨Reads.append (hopen.append (hparts.reads _)) rfl, ?_⟩
  obtain ⟨c, rest, hc⟩ : ∃ c rest, rt.package.toList = c :: rest :=
    List.exists_cons_of_ne_nil fun hnil => hname.1 (String.toList_eq_nil_iff.mp hnil)
  refine ⟨c, ?_, isPlain_of_name (hname.2 c (by simp [hc]))⟩
  simp only [String.toList_append, hc, List.cons_append]
  rfl

end Package

/-! ### One more argument -/

/-- **The last bracket of a call closes the list of its arguments**: before it, that bracket alone
is due, and no literal or comment is open. A slash may stand there. -/
theorem read_dropLast_of_endsWith {run : String} (h : Balanced run)
    (hlast : Text.endsWith ')' run = true) :
    ∃ mode, (mode = .code ∨ mode = .slash) ∧
      Scan.read {} (Text.dropLast run).toList = some { mode, due := [')'] } := by
  have hmem : ')' ∈ run.toList.getLast? := by simpa [Text.endsWith] using hlast
  rw [Balanced, Reads, ← List.dropLast_append_getLast? ')' hmem, Scan.read_append,
    Option.bind_eq_some_iff] at h
  obtain ⟨⟨mode, due⟩, hhead, hclose⟩ := h
  rw [Text.toList_dropLast, hhead]
  have hstep : Scan.step { mode, due } ')' = some {} := by
    simpa [Scan.read_cons, Scan.read] using hclose
  cases mode with
  | code =>
      obtain rfl : due = [')'] := Scan.eq_of_close hstep
      exact ⟨.code, .inl rfl, rfl⟩
  | slash =>
      obtain rfl : due = [')'] := Scan.eq_of_close hstep
      exact ⟨.slash, .inr rfl, rfl⟩
  | string | stringEscape | raw | rune | runeEscape | line | block | blockStar => cases hstep

/-- A call stays balanced when its last bracket is replaced by code that closes it. -/
theorem balanced_dropLast_append {run tail : String} (hrun : Balanced run)
    (hlast : Text.endsWith ')' run = true) (htail : Reads tail [')'] [])
    (hhead : ∃ c ∈ tail.toList.head?, isPlain c = true) :
    Balanced (Text.dropLast run ++ tail) := by
  obtain ⟨mode, hmode, hread⟩ := read_dropLast_of_endsWith hrun hlast
  rw [Balanced, Reads, String.toList_append, Scan.read_append, hread]
  rcases hmode with rfl | rfl
  · exact htail
  · -- A slash before the bracket must not become the beginning of a comment.
    exact (Scan.read_slash hhead _).trans htail

/-- **A call stays balanced when it gets one more argument.** -/
theorem balanced_appendArgument {run argument : String} (hrun : Balanced run)
    (hlast : Text.endsWith ')' run = true) (hargument : Balanced argument)
    (hhead : ∃ c ∈ argument.toList.head?, isPlain c = true) :
    Balanced (appendArgument run argument) := by
  rw [appendArgument]
  split
  · rw [String.append_assoc]
    refine balanced_dropLast_append hrun hlast (Reads.append (hargument.reads _) rfl) ?_
    obtain ⟨c, hc, hplain⟩ := hhead
    exact ⟨c, by simp [String.toList_append, List.head?_append, Option.mem_def.mp hc], hplain⟩
  · rw [String.append_assoc, String.append_assoc]
    refine balanced_dropLast_append hrun hlast ?_ ⟨',', by simp [String.toList_append], rfl⟩
    exact Reads.append rfl (Reads.append (hargument.reads [')']) rfl)

/-- **The call to a component is balanced** if the call as given and the parts are. -/
theorem balanced_call (hname : IsName rt.package) {run : String} {parts : Parts} (attrs : Dict)
    (hrun : Balanced run) (hlast : Text.endsWith ')' run = true)
    (hbody : Balanced parts.body.finish.code)
    (hslots : ∀ entry ∈ parts.slots.entries, Balanced entry.2)
    (htemplates : ∀ entry ∈ parts.templates.entries, Balanced entry.2) :
    Balanced (Component.call rt run attrs parts) := by
  rw [Component.call]
  split
  · rename_i argument hconfiguration
    obtain ⟨hargument, hhead⟩ :=
      balanced_configuration hname hconfiguration hbody hslots htemplates
    exact balanced_appendArgument hrun hlast hargument hhead
  · exact hrun

end Stencil.Runtime
