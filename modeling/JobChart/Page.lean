import JobChart.Text.Blank

/-!
# Pages

A flowchart as it is written out: alone, or in a page with a title.
-/

namespace JobChart.Page

open Text

def block (code : String) : String := "```mermaid\n" ++ stripEnd code ++ "\n```\n"

def titled (title code : String) : String := "# " ++ title ++ "\n\n" ++ block code

/-- The chart alone, as a file holds it. -/
def bare (code : String) : String := stripEnd code ++ "\n"

end JobChart.Page
