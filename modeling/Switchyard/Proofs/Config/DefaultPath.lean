import Switchyard.Config.Basic
import Switchyard.Proofs.Text.FormUrl
import Switchyard.Subscription

/-!
# The default path

With no path set, links name one that shows the first characters of the user's text, written as form
data. Whoever reads form data gets back what was written, with each of these characters whole
(`decodeText?_defaultWsPath`); so two users have one path exactly if their texts begin alike. What
form data is made of has no meaning in a link: a link divides with the path as it does without it
(`marks_vlessLink`, `marks_trojanLink`).
-/

namespace Switchyard

/-! ### What the path shows -/

namespace Config

theorem decodeText?_defaultWsPath (uuid : List Char) :
    FormUrl.decodeText? (defaultWsPath uuid) = some (rawWsPath uuid) :=
  FormUrl.decodeText?_encode (rawWsPath uuid)

/-- Default paths are the same exactly when they show the same characters. -/
theorem defaultWsPath_inj {u v : List Char} :
    defaultWsPath u = defaultWsPath v ↔ u.take tokenLength = v.take tokenLength := by
  unfold defaultWsPath
  rw [FormUrl.encode_ofText_inj]
  unfold rawWsPath
  rw [List.append_left_inj, List.append_right_inj]

/-! ### What the path is made of -/

theorem isFormChar_of_mem_defaultWsPath {uuid : List Char} {x : Char}
    (h : x ∈ defaultWsPath uuid) : FormUrl.isFormChar x = true :=
  FormUrl.isFormChar_of_mem_encode h

/-- A character with a meaning of its own is not in the path. -/
theorem notMem_defaultWsPath {x : Char} (h : FormUrl.isFormChar x = false) (uuid : List Char) :
    x ∉ defaultWsPath uuid := fun hx => by
  rw [isFormChar_of_mem_defaultWsPath hx] at h
  cases h

theorem newline_notMem_defaultWsPath (uuid : List Char) : '\n' ∉ defaultWsPath uuid :=
  notMem_defaultWsPath (by decide) uuid

end Config

/-! ### The path in a link -/

namespace Subscription

/-- The characters of a text that form data does not have, all that divide a link among them. -/
def marks (cs : List Char) : List Char :=
  cs.filter fun x => !FormUrl.isFormChar x

theorem marks_append (cs cs' : List Char) : marks (cs ++ cs') = marks cs ++ marks cs' :=
  List.filter_append cs cs'

theorem marks_defaultWsPath (uuid : List Char) : marks (Config.defaultWsPath uuid) = [] := by
  refine List.filter_eq_nil_iff.2 fun x hx => ?_
  rw [Config.isFormChar_of_mem_defaultWsPath hx]
  decide

variable (c : Config) (uuid label : List Char)

theorem marks_options :
    marks (options { c with wsPath := Config.defaultWsPath uuid } label) =
      marks (options { c with wsPath := [] } label) := by
  unfold options
  simp only [marks_append, marks_defaultWsPath, List.append_nil]

theorem marks_vlessLink :
    marks (vlessLink { c with wsPath := Config.defaultWsPath uuid } label) =
      marks (vlessLink { c with wsPath := [] } label) := by
  unfold vlessLink
  rw [marks_append, marks_options, ← marks_append]
  rfl

theorem marks_trojanLink :
    marks (trojanLink { c with wsPath := Config.defaultWsPath uuid } label) =
      marks (trojanLink { c with wsPath := [] } label) := by
  unfold trojanLink
  rw [List.append_cons, marks_append, marks_options, ← marks_append, ← List.append_cons]
  rfl

end Subscription

/-- Whatever the user's text is: its default path has only ASCII letters, digits and six other
characters, so none that divides a link or ends a line, and a link has the same characters of these
kinds with the path as without it. A reader of form data gets back the first eight characters of the
text between what stands around them, or all of a shorter text; and two texts have the same path
exactly if they have the same first eight characters. -/
theorem Config.defaultWsPath_reads_back (u : List Char) :
    (∀ x ∈ defaultWsPath u, x.isAlphanum = true ∨ x ∈ "*-._+%".toList) ∧
      (∀ x ∈ "&=?#@\r\n".toList, x ∉ defaultWsPath u) ∧
      (∀ (c : Config) (label : List Char),
        Subscription.marks (Subscription.vlessLink { c with wsPath := defaultWsPath u } label) =
            Subscription.marks (Subscription.vlessLink { c with wsPath := [] } label) ∧
          Subscription.marks (Subscription.trojanLink { c with wsPath := defaultWsPath u } label) =
            Subscription.marks (Subscription.trojanLink { c with wsPath := [] } label)) ∧
      FormUrl.decodeText? (defaultWsPath u) =
        some ("api/v1/user?token=".toList ++ u.take 8 ++ "&lang=en".toList) ∧
      ∀ v, defaultWsPath u = defaultWsPath v ↔ u.take 8 = v.take 8 := by
  refine ⟨fun x hx => ?_, fun x hx => notMem_defaultWsPath ?_ u,
    fun c label => ⟨Subscription.marks_vlessLink c u label, Subscription.marks_trojanLink c u label⟩,
    decodeText?_defaultWsPath u, fun v => defaultWsPath_inj⟩
  · have hform := isFormChar_of_mem_defaultWsPath hx
    simpa [FormUrl.isFormChar] using hform
  · have hall : ("&=?#@\r\n".toList.all fun x => !FormUrl.isFormChar x) = true := by decide
    simpa using List.all_eq_true.1 hall x hx

/-- A text of two characters is shown whole, each as the bytes of its UTF-8. -/
example : Config.defaultWsPath ['é', '&'] =
    "api%2Fv1%2Fuser%3Ftoken%3D%C3%A9%26%26lang%3Den".toList := by
  decide +kernel

end Switchyard
