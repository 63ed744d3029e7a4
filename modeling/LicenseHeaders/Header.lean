import LicenseHeaders.Text.Search

namespace LicenseHeaders

/-- A header text has at least one character that is not blank. -/
structure Header where
  text : Text
  notBlank : text.isBlank = false
deriving DecidableEq

namespace Header

def ofText? (text : Text) : Option Header :=
  if h : text.isBlank = false then some ⟨text, h⟩ else none

/-- The header as it is written into a file: its text, ended by a newline. -/
def block (h : Header) : Text :=
  if Text.endsWithNewline h.text then h.text else h.text ++ ['\n']

def lines (h : Header) : List Text :=
  Text.lines h.text

def lineCount (h : Header) : Nat :=
  h.lines.length

def apacheLines : List String :=
  ["/*",
    " * Copyright Elasticsearch B.V. and/or licensed to Elasticsearch B.V. under one",
    " * or more contributor license agreements. See the NOTICE file distributed with",
    " * this work for additional information regarding copyright",
    " * ownership. Elasticsearch B.V. licenses this file to you under",
    " * the Apache License, Version 2.0 (the \"License\"); you may",
    " * not use this file except in compliance with the License.",
    " * You may obtain a copy of the License at",
    " *",
    " *  http://www.apache.org/licenses/LICENSE-2.0",
    " *",
    " * Unless required by applicable law or agreed to in writing,",
    " * software distributed under the License is distributed on an",
    " * \"AS IS\" BASIS, WITHOUT WARRANTIES OR CONDITIONS OF ANY",
    " * KIND, either express or implied.  See the License for the",
    " * specific language governing permissions and limitations",
    " * under the License.",
    " */"]

def apache : Header where
  text := Text.unlines (apacheLines.map String.toList)
  notBlank := by
    rw [apacheLines, List.map_cons, Text.unlines_cons, show "/*".toList = ['/', '*'] from rfl]
    rfl

end Header

end LicenseHeaders
