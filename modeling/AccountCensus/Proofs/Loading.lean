import AccountCensus.Files
import AccountCensus.Proofs.Encoding

/-!
# Loading a file is parsing its text

A file that holds the bytes of a text is loaded as that text is parsed (`load_toUTF8`), and any
other file is refused for its bytes alone (`load_eq_notText_iff`): a parser that never sees the
text has nothing to say about it. Which files these are is told by their first fault.
-/

namespace AccountCensus.Settings

open Text.Utf8 (Malformed)

variable {existing : String → Bool}

/-- **The bytes of a text are loaded as the text is parsed.** -/
theorem load_toUTF8 (existing : String → Bool) (text : String) :
    load existing text.toUTF8 = parse existing text := by
  rw [load, decode, Text.Utf8.decode_toUTF8]
  rfl

/-- The parser finds no fault with the file. -/
theorem parse_ne_file {text : String} {e : FileError} :
    parse existing text ≠ .error (.file e) := by
  unfold parse
  split
  · exact nofun
  · split
    · exact nofun
    · rename_i s _
      cases validate existing s <;> exact nofun

/-- **Bytes are refused as no text exactly if they are none.** -/
theorem load_eq_notText_iff {bytes : ByteArray} :
    load existing bytes = .error (.file .notText) ↔ ∀ text : String, text.toUTF8 ≠ bytes := by
  constructor
  · rintro h text rfl
    rw [load_toUTF8] at h
    exact parse_ne_file h
  · intro h
    obtain ⟨fault, hfault⟩ := Text.Utf8.exists_decode_eq_error h
    rw [load, decode, hfault]
    rfl

/-- A file is loaded from the bytes that its path leads to. -/
theorem settings_of_find {fs : Files} {path : String} {bytes : ByteArray}
    (h : fs.find path = .ok (.file (.bytes bytes))) :
    fs.settings path = load fs.hasPath bytes := by
  simp only [Files.settings, Files.read, h]

/-- **Loading a file is parsing its text.** For all bytes that a file can hold:

- if they are those of a text, the file is loaded as that text is parsed, to settings or to any
  error;
- if they are those of no text, and only then, it is refused with this very error, before anything
  is said about what it may hold;
- they are those of no text exactly if a fault stands somewhere behind a text: a byte that begins
  no character, a character in too many bytes, a surrogate, a number above the last character, or a
  character that breaks off. -/
theorem loading_is_parsing :
    (∀ existing text, load existing text.toUTF8 = parse existing text) ∧
    (∀ existing bytes, load existing bytes = .error (.file .notText) ↔
      ∀ text : String, text.toUTF8 ≠ bytes) ∧
    (LoadError.file .notText).source? = some "stream did not contain valid UTF-8" ∧
    (LoadError.file .notText).message =
      "failed to read config file: stream did not contain valid UTF-8" ∧
    (∀ bytes : ByteArray, (∀ text : String, text.toUTF8 ≠ bytes) ↔
      ∃ (before : String) (rest : List UInt8),
        bytes = before.toUTF8 ++ rest.toByteArray ∧ Malformed rest) ∧
    ∀ (fs : Files) path bytes, fs.find path = .ok (.file (.bytes bytes)) →
      fs.settings path = load fs.hasPath bytes :=
  ⟨load_toUTF8, fun _ _ => load_eq_notText_iff, rfl, by decide +kernel,
    fun _ => Text.Utf8.not_text_iff, fun _ _ _ => settings_of_find⟩

/-- A surrogate inside a comment, in a document that has a port out of range: nothing is said about
the port. -/
theorem surrogate_in_comment :
    let before := "[server]\nmetrics_port = 70000 # "
    let bytes := before.toUTF8 ++ [0xED, 0xA0, 0x80, 0x0A].toByteArray
    let fs : Files := ⟨[([], .directory true), (["c"], .file (.bytes bytes))], []⟩
    fs.find "c" = .ok (.file (.bytes bytes)) ∧ fs.settings "c" = .error (.file .notText) := by
  intro before bytes fs
  obtain ⟨-, hnoText, -, -, hfault, hfile⟩ := loading_is_parsing
  have hpath : "c".splitOn "/" = ["c"] := by
    rw [String.splitOn, if_neg (by decide), String.splitOnAux, if_neg (by decide +kernel),
      if_neg (by decide +kernel), String.splitOnAux, if_pos (by decide +kernel)]
    decide +kernel
  have horigin : fs.origin "c" = [] := by
    unfold Files.origin
    split <;> rfl
  have hfind : fs.find "c" = .ok (.file (.bytes bytes)) := by
    rw [Files.find, hpath, horigin, if_neg (by decide)]
    rfl
  refine ⟨hfind, (hfile fs _ bytes hfind).trans ((hnoText _ bytes).mpr ?_)⟩
  exact (hfault bytes).mpr ⟨before, _, rfl, .surrogate (by decide)⟩

end AccountCensus.Settings
