/-!
# Classes of characters outside ASCII

A class is given by the lengths of runs of code points from U+0080 on: how many do not belong to it,
then how many belong to it, and so on in turn. The lengths are written one after the other with the
letters as digits to the base 26; the last digit of each is a capital letter.
-/

set_option autoImplicit false

namespace Mutagenesis.Text

/-- Of the code points from the start of the runs on, the one at a place belongs to the class. -/
def inRuns : List Nat → Nat → Bool
  | outside :: inside :: rest, n =>
    if n < outside then false
    else if n < outside + inside then true
    else inRuns rest (n - outside - inside)
  | _, _ => false

/-- The lengths that a text spells; `n` is what has been read of the next one. -/
def lengthsFrom (n : Nat) : List Char → List Nat
  | [] => []
  | c :: rest =>
    if c.isUpper then (26 * n + (c.toNat - 'A'.toNat)) :: lengthsFrom 0 rest
    else lengthsFrom (26 * n + (c.toNat - 'a'.toNat)) rest

def runsOf (lines : List String) : List Nat :=
  lines.flatMap fun line => lengthsFrom 0 line.toList

/-- Letters in the wide sense (the Unicode property Alphabetic) and numbers (the general categories
Nd, Nl and No). -/
def wordRuns : List Nat := runsOf [
  "bQBHCBBDCBDBXBbFBrQEMOFHBBBdIBbDSBCCEBBGBBDBBBUBdFBfJIgKBbMCBGbPbNOBBBCBCBBIbBEEbDLFcEBREdYBIE",
  "IEQCBQbWNdXObRJCEBFYCTTZHLFYBHHBIbQKMDHGcYBQBDEPCKBTBICCCWBHBBDEDICCCCBBIBECBFCMCGCBEDBGECCWBH",
  "BCBCBCEFECCCEBHEBBHQLDBJBDBWBHBCBFDJBDBCDBPECKJEEDBICCCWBHBCBFDICCCCJCECBFCKBHKCBGDDBEDCBBBCDC",
  "DDDMEFDDBDDBGBONNNBDBXBQDIBDBDICBDBCCECKIHBEBIBDBXBKBFDIBDBDICFDBECKBDMNBDBbPCIBDBDBBFQCTBGBDB",
  "SDYBJBBCHIGBBBIGKCCNcGFHGBCKbNCBBBFBYBBBTBDCFBBGBCKCEbGBbFUMIBbKETEQBbKcPcDBBCPGdACbMBBFBCbRB",
  "mVBECHBBBECbPBECbHBECHBBBECPBcFBECcPOUDQQdICGDxWCRBbAFcXDLHULVMUMNBDBCMcACTOBEBDKGKWKGdLHbRFcS",
  "KbFBMEJNbOCFLbSEbAGLbLbCEcLCULKGKNBXCLDbXcABPBIDKbMbQCcGBLOcDJKDbXCLFbRCDbPEBGBCDBFhKTbILkSCGC",
  "bMCGCIBBBBBBBbFCcBBHBBDDBHDECGENFDBHeLCCGFLGNdXBEBCKBBDFGBBBBBBEBLCEFFEBBcGbbYcIbAcWyGbEbrOiVG",
  "EDCJBCbMBBFBCcEHBQXJHBHBHBHBHBHBHBHBbGbVBsBDZJHFCFEdIGDBdMBEFbRBdQDEKbGbWQbGKbEIBPbGKbNPmIjtO",
  "cMbguFcPbUCkJDbCUbVFIDeJbNJCdZCdEUVBbHIGKcAMcQBBKKYGDBBbUFbJNbDDbZBMPLGbFBcDJOCKGXDcRBBBBYDCQC",
  "ELGCGCGJHBHBbRBOGeTFKGqnSMXEbXmnCoCCeCbMHMFFMBNBFBBBCBCBeEbHnZScMCcCbOMeMFBfFTKHbAGbALdLDGCGCG",
  "CDbJMBbABTBCBPCObIeTMbTMcFRCjKbDDbXQbBEbKJbEFbRFbECbKEIBFbQgCCKGbKEbKEbOIcAMLBPBHBCBLBPBHBCDcA",
  "MlZJWKIYGBbQBJcRGCBBbSBCDBCXCbFCbMIJbWTBCFbHEbAGbAbMcEEUCbYBCFIBDBbDKJXbFBbGbGIBbCGFQcCKWCbBF",
  "bAXHdCcVcDbZNbZHbUIKGbMDBFXiKbFBbQBCDCQGbYDDbOIWLEbBSbUbCUXJcSMbEBFKcFJBNZHKGbZDKEEIbJDBJcMBEJ",
  "NBBEULSBbICBGEcKHBBBEBPBKHcFHKGEBICCCWBHBCBFDICCCCDBGBFHbCKBBCBBbMBKBBCBBEBCDBBBbScOBDBEFKFDbE",
  "cOCCBBIKgKcCCHZGbIcLBBDBLKbMcCCBHKGUbCbBCOFMEHhDcFdZdFMICBCIBCBbEBCCCCENKcSICbUCGBBBCbBbZCKRcU",
  "FBScVdZIdKbHPKGJBbTBHBBPbDFbECWBOcVHBCBbSDBBCBDBBCCIKGGBCBbLBCBEBBHKGbSEKjMXJRBbPDDPKdIBPVbR",
  "bjMdYeHRhOdxKdTPbpGRGZfxRFwLkdDbVBKcoSvXHbFBKGdBBKGbESbWQEMKBHBVFTqQbTDKhQdJJZCZbScXEcFHRcMCBB",
  "MHJkxYbPbGdTeLmwREBHBCBlFPBbDDCBOEIpGdkUeDFNDJHKEBgeRKceWUMUeEZfFdHBcTBCCBCCCEBMBBBHBcNBECIBHB",
  "bCBEBFBBDHBnCCZBZBbFBZBbFBZBbFBZBbFBZBICbYcqYbFGGiFHBRCHBCBFFcKbHBeIbTKHCKEBmJbESbSEKsCbCEKiG",
  "bECLhPbFBWICiQHBEBCBPBhPCJbWcQDBDBEKbeLcHBDBEcYbTBPhMEBbBBCBBCBBKBEBBBBGBEBBBBBBDBCBBCBBBBBBBB",
  "BBCBBCEBHBEBEBBBKBRFDBFBRwINbJbAGbAGbAdyKKbnQclfCbGgmOCioCClbLPxYdqWuWcfYhhZFmoO"]

/-- What a reader cannot tell from a printed text: controls, formats, unassigned and private code
points, separators (the general categories Cc, Cf, Cn, Co, Cs, Zl, Zp and Zs), fillers that leave no
trace (the Unicode property Default_Ignorable_Code_Point), and the marks that join the character
before them (those of the categories Mc, Me and Mn with the property Grapheme_Extend). -/
def hiddenRuns : List Nat := runsOf [
  "AbHMBwWeIICGEHBBBUBiQHgKBbMCbYCDbUBBBCBCBJbBEGRKLBBbUVQBdXIBGCCBEbGCBBbEbDdLLBObRJHDYEBJBDBHPB",
  "ZFBBLFbGQbQcFcDBBBEIEBDHKCbDBCBICCCWBHBBDEDBBCGCCCBBNCBDEYFBBGECCWBHBCBCBCEDYEBBHKCDBBMBBJBDBW",
  "BHBCBFDEIBBCDBPCEMHBICBICCCWBHBCBFDBCBGCCCPCBDESLBBGDDBEDCBBBCDCDDDMFBBCDDBDDBVVGDBIBDBXBQDBDE",
  "TDBCCCEKHKBLBDBXBKBFDCCBBCXDBCEKBDOLBDBbPCBBCFDBDBCEDBKEbACCBSDYBJBBCHJCGHHKCDMbWBCLIINbLCBBBF",
  "BYBBBKBCJBCFBBJKCEbGYCbBBBBBBOBbKSBFBCFbXIBGBNbLbTEBGBCCCZCEDQENBCCGBPBbOBBFBCfNCiYBECHBBBECbP",
  "BECbHBECHBBBECPBcFBECcPFbDDbAGdICGCyQBbCDdLHSNTDCJSONBDPcACBHIBCLJDKGKGLFKGdLHFCbIBBFcSKbFEECD",
  "ECBGHBDbQCFLbSEbAGLDcFCCDcEBBJBBCIGNKGKGOdIbWKEDIBbDJMCbGECGcEBBCDBBNbWICFPDcKFbRCLLBNBHEBGBDC",
  "BFhKcMkSCGCbMCGCIBBBBBBBbFCcBBPBOCGBTCDBJRYIbVRCCbBBNDbIcKfKEzQWLVcrSCoNDCFbTBBFBCcEHCPXJHBHBH",
  "BHBHBHBHBHbHdQbIbABdLMiGbAQBbPGQBdIEdXFbRBbZBbQBdIJbWBbriRDcDJnKUbVEBKbGCdCCGIiNURBDBEBZCFEKG",
  "cEIcQKMYNBbMIZLBMbEGbWBCECCCBNBLEHBZBbPGCCCLDBIBBCKCbGBbZBBDCCFCBBBYRCILGCGCGJHBHBcIEeNBCBEDKG",
  "qnSMXEbXmnCoCCeCbMHMFFBBYBFBBBCBCBzAbGQQKWbJBTBEEFBfFEgDBbEDGCGCGCDDHBHNCCMBbABTBCBPCObIeTFDE",
  "bTDdKBNDBbVbTfBbDDbXQbBEbKJbEFbMKbEBbLEObQgCCKGbKEbKEbOIcALMBPBHBCBLBPBHBCDcAMlZJWKIYGBbQBJcRG",
  "CBBbSBCDBCXBcUIJbWTBCFbHDbBFbBbMcEEUCbVPEBDBbDKJHJHcMbGbLGMJcCDbDCbBFbAHEMHdCcVcDbZNbZHbQMKGbM",
  "IYICiAbFBbQDBCCQGIJbNbOIWLJWSEEbMbCUXJBBcCPHEbEBCCBMbXECCCBEOZHKJbKFBJSIbJBDLcAJBBIECBQBULSBbC",
  "DCEGBCcLHBBBEBPBLGbVBDNKICBICCCWBHBCBFDBBBBECCCCDBMHbCKBBCBBbMBBBCPBBCDBBDBCbNcEICDBBVBBBDbEbW",
  "BCGBBCBBCBCEIKgKbVBCGECBCbBbKbZICBBCELKGNTbRBBBCICGKGUbCbBDBBCEBJXhDbVJBCBdWdFMICBCIBCBYBFBCGE",
  "BDJKcSICbQIEBEbBBKbOGCEIJBGCDbUNBCJNcVHKdJBDBBBdKbIOKGJBbMOBBGKbDDbGZBHBCBcXHBCBbMVBJKGGBCBbLE",
  "CBBBBHKGbSEKjMTCEJPBbKICDXdIBPbYNbjNdYeHBFLhOdxKdVNbpGRGZfxRFwLkdDbEMDDKcoSvXHbFBKEdDBKGbEHBK",
  "bWHPKKBHBVFTqQcGhQdNFZCZbScXFcELNcMEOFJkxYbPbGdTeLmwREBHBCBlFPBbDDCBOEIpGdkUeDFNDJHKCBCBfvKjTD",
  "qUGXPRdReMcIjMKbNCcIFDWCHbEEcJVcODBeSUMUMdJJZfFdHBcTBCCBCCCEBMBBBHBcNBECIBHBbCBEBFBBDHBnCClGC",
  "vQcDEbYIBOBHbrWbFGGkBcKfQbTKHCKECmIbESbSEKFBrWbCEKiGbECLEBhKbFBDBCBHCFJCiQHBEBCBPBhPCJbWcQHBEK",
  "ECbeFcQcYcJhMEBbBBCBBCBBKBEBBBBGBEBBBBBBDBCBBCBBBBBBBBBBCBBCEBHBEBEBBBKBRFDBFBRcACkKbSEdWMPCPB",
  "PBbLKgScEbDNbSEJHCOGfYblXDRDNDiKGMEBPMEcEIKGbOIbECMECOJbNnGIOCNDLDcFBBEQCMEKHfRBdZbnPclfCbGgmO",
  "CioCClbLPxYdqWuWcfYhhZFmoObzljY"]

end Mutagenesis.Text
