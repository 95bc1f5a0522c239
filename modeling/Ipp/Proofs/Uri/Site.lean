import Ipp.Config
import Ipp.Proofs.Uri.Reading

/-!
# Sites

The place at which an engine is served, and the URIs under its root. Whatever the port and the path of the
script are, a URI with two segments behind the root has the host and the port of the site, and the last
segment is its base name (`Site.parse_member`).
-/

namespace Ipp

/-- Where an engine is served: under a name, at a port, and perhaps behind the path of a script. -/
structure Site where
  name : String
  port : Nat
  script : String
  name_labels : Uri.isName name.toList = true
  port_pos : 0 < port
  port_le : port ≤ 65535
  script_segments : Uri.isPath script.toList = true

namespace Site

variable (site : Site)

def root : String :=
  Config.rootFor site.name (Text.decimal site.port) site.script

/-- The path of the script, and behind it `rest`. -/
def path (rest : List Char) : List Char :=
  let script := site.script.toList.dropWhile (· = '/')
  if script.isEmpty then rest else script ++ '/' :: rest

theorem isPath_path {rest : List Char} (hrest : Uri.isPath rest = true) :
    Uri.isPath (site.path rest) = true := by
  have hscript := Uri.isPath_dropWhile site.script_segments
  unfold path
  dsimp only
  split
  · exact hrest
  · rw [Uri.isPath_append, hscript, hrest]
    rfl

/-- The URI with `rest` behind the root. -/
def plain (rest : List Char) (hrest : Uri.isPath rest = true) : Uri.Plain where
  scheme := if site.port = 631 then ['i', 'p', 'p'] else ['h', 't', 't', 'p']
  name := site.name.toList
  port := if site.port = 631 then none else some site.port
  path := site.path rest
  scheme_served := by split <;> simp
  name_labels := site.name_labels
  port_le := by
    intro p hp
    split at hp
    · cases hp
    · cases hp
      exact site.port_le
  path_segments := site.isPath_path hrest

theorem text_plain {rest : List Char} (hrest : Uri.isPath rest = true) :
    String.ofList (site.plain rest hrest).text = site.root ++ "/" ++ String.ofList rest := by
  have hport : Text.decimal site.port = "631" ↔ site.port = 631 := Text.decimal_inj (n := 631)
  rw [← String.toList_inj]
  simp only [Uri.Plain.text, Uri.Plain.behindName, plain, path, root, Config.rootFor, hport]
  generalize site.script.toList.dropWhile (· = '/') = script
  by_cases h : site.port = 631 <;> cases script <;> simp [h, Text.decimal]

/-- The URI names something at this site. -/
structure Holds (u : Uri) : Prop where
  host : u.host = site.name
  port : u.effectivePort = site.port

theorem holds_plain {rest : List Char} (hrest : Uri.isPath rest = true) :
    site.Holds (site.plain rest hrest).uri where
  host := String.ofList_toList
  port := by
    rw [Uri.Plain.effectivePort_uri, plain]
    by_cases h : site.port = 631
    · simp [h]
    · simp [h]

theorem parse_uri {rest : List Char} (hrest : Uri.isPath rest = true) :
    Uri.parse (site.root ++ "/" ++ String.ofList rest) = .ok (site.plain rest hrest).uri := by
  rw [← text_plain, Uri.Plain.parse_text]

theorem path_append (front last : List Char) :
    site.path (front ++ '/' :: last) = site.path front ++ '/' :: last := by
  unfold path
  dsimp only
  split
  · rfl
  · rw [List.append_assoc, List.cons_append]

-- The base name is what stands behind the last slash.
theorem basename?_plain {front last : List Char} (hrest : Uri.isPath (front ++ '/' :: last) = true)
    (hlast : Uri.isSegment last = true) (hfilled : last ≠ []) :
    (site.plain (front ++ '/' :: last) hrest).uri.basename? = some (String.ofList last) :=
  have hpath : '/' :: (site.plain _ hrest).path = '/' :: site.path front ++ '/' :: last :=
    congrArg ('/' :: ·) (site.path_append front last)
  (site.plain _ hrest).basename?_uri hpath hlast hfilled

/-- What is named by two segments behind the root is read as such. -/
theorem parse_member (collection last : String) (hcollection : Uri.isSegment collection.toList = true)
    (hlast : Uri.isSegment last.toList = true) (hfilled : last ≠ "") :
    ∃ u, Uri.parse (site.root ++ ("/" ++ collection ++ "/" ++ last)) = .ok u ∧ site.Holds u ∧
      u.basename? = some last := by
  have hrest : Uri.isPath (collection.toList ++ '/' :: last.toList) = true := by
    rw [Uri.isPath_append, Uri.isPath_of_isSegment hcollection, Uri.isPath_of_isSegment hlast]
    rfl
  have htext : site.root ++ ("/" ++ collection ++ "/" ++ last) =
      site.root ++ "/" ++ String.ofList (collection.toList ++ '/' :: last.toList) := by
    rw [← String.toList_inj]
    simp
  have hname := site.basename?_plain hrest hlast (by simpa using hfilled)
  rw [String.ofList_toList] at hname
  exact ⟨_, htext ▸ site.parse_uri hrest, site.holds_plain hrest, hname⟩

end Site

end Ipp
