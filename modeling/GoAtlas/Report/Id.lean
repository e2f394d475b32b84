import GoAtlas.Text.Blank

namespace GoAtlas.Report

/-- A text with a single space for each run of blanks in it, and without blanks at its ends. -/
def normalizeExpr (s : String) : String :=
  String.ofList (Text.collapse false (Text.strip s).toList)

/-- A line and a column. -/
def placeText (line column : Int) : String :=
  "@L" ++ toString line ++ ":C" ++ toString column

def symbolId (path package qualified : String) (line column : Int) : String :=
  "sym:" ++ path ++ "::" ++ package ++ "." ++ qualified ++ placeText line column

def diagnosticId (kind path : String) (line column : Int) (subject : String) : String :=
  "diag:" ++ kind ++ ":" ++ path ++ placeText line column ++ ":" ++ normalizeExpr subject

end GoAtlas.Report
