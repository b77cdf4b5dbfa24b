import P4estTnodes.Basic
import P4estTnodes.Register
import P4estTnodes.Traverse
import P4estTnodes.Element
import P4estTnodes.FaceCode
import P4estTnodes.Owned
import P4estTnodes.Wait
import P4estTnodes.Finalize
import P4estTnodes.System
import P4estTnodes.Numbering
import P4estTnodes.Layout
import P4estTnodes.Sharers
import P4estTnodes.SharerAgreement
import P4estTnodes.Protocol
import P4estTnodes.Refinement
import P4estTnodes.Trimesh
import P4estTnodes.Gmt.SphereNew
import P4estTnodes.Gmt.LandPolygons
import P4estTnodes.Gmt.SphereFile
import P4estTnodes.Gmt.LatlongNew
